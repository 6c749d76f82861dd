import Localization.Text.Lowercase

/-
**The lower case of a text, character by character.**

Lower case says little of the characters of other scripts. But only one of them has a lower-case form in
ASCII, so a text whose lower case is plain was nearly plain itself; and a character that is no part of a
word cuts the lower case of a text in two.

* `Text.ascii_of_lowerChar` — of the characters beyond ASCII, the Kelvin sign alone leads to ASCII.
* `Text.mem_of_mem_lowercaseAfter` — signs that were there before.
* `Text.letter_of_lowercaseAfter` — the characters that letters of ASCII come from.
* `Text.lowercaseAfter_append` — the lower case on both sides of a character outside of words.
-/

namespace Localization.Text

/-! ### The lower case of a character -/

/-- The lower case of an ASCII character is one, and only letters change. -/
theorem isAlpha_toLower {c : Char} (ascii : c.toNat < 128) :
    c.toLower.isAlpha = c.isAlpha ∧ (c.isAlpha = false → c.toLower = c) := by
  have all : ∀ code < 128, (Char.ofNat code).toLower.isAlpha = (Char.ofNat code).isAlpha ∧
      ((Char.ofNat code).isAlpha = false → (Char.ofNat code).toLower = Char.ofNat code) := by
    decide +kernel
  have own := all c.toNat ascii
  rwa [Char.ofNat_toNat] at own

/-- The run of the Kelvin sign is the only one that leads to ASCII, and every run leads to characters. -/
theorem shift_lowerRuns : ∀ run ∈ lowerRuns, run.first = 0x212A ∧ run.last = 0x212A ∨
    128 ≤ run.first + run.shift ∧ (run.last + run.shift < 0xD800 ∨
      0xDFFF < run.first + run.shift ∧ run.last + run.shift < 0x110000) := by
  decide +kernel

theorem toNat_ofNat_of_isValidChar {code : Nat} (valid : code.isValidChar) :
    (Char.ofNat code).toNat = code := by
  rw [Char.ofNat, dif_pos valid]
  rfl

/-- **Of the characters beyond ASCII, the Kelvin sign alone has a lower-case form in ASCII.** -/
theorem ascii_of_lowerChar {c : Char} (low : (lowerChar c).toNat < 128) :
    c.toNat < 128 ∨ c = '\u212A' := by
  refine Classical.or_iff_not_imp_left.mpr fun high => ?_
  rw [lowerChar, if_neg high] at low
  cases found : lowerRuns.find? (·.covers c.toNat) with
  | none =>
    rw [found] at low
    exact absurd low high
  | some run =>
    rw [found] at low
    have covered := List.find?_some found
    simp only [LowerRun.covers, Bool.and_eq_true, decide_eq_true_eq] at covered
    rcases shift_lowerRuns run (List.mem_of_find?_eq_some found) with kelvin | ⟨least, valid⟩
    · have code : c.toNat = 0x212A := by omega
      rw [← Char.ofNat_toNat c, code]
    · have scalar : (c.toNat + run.shift).toNat.isValidChar := by
        unfold Nat.isValidChar
        omega
      dsimp only at low
      rw [toNat_ofNat_of_isValidChar scalar] at low
      omega

theorem lowerChar_ascii {c : Char} (ascii : c.toNat < 128) : lowerChar c = c.toLower :=
  if_pos ascii

/-- A sign of ASCII is the lower case of itself alone. -/
theorem eq_of_lowerChar {c sign : Char} (ascii : sign.toNat < 128) (noLetter : sign.isAlpha = false)
    (lower : lowerChar c = sign) : c = sign := by
  subst lower
  rcases ascii_of_lowerChar ascii with low | rfl
  · obtain ⟨kind, same⟩ := isAlpha_toLower low
    rw [lowerChar_ascii low] at noLetter ⊢
    exact (same (kind ▸ noLetter)).symm
  · revert noLetter
    decide +kernel

theorem isAlpha_of_lowerChar {c : Char} (ascii : (lowerChar c).toNat < 128)
    (letter : (lowerChar c).isAlpha = true) : c.isAlpha = true ∨ c = '\u212A' := by
  refine (ascii_of_lowerChar ascii).imp_left fun low => ?_
  rwa [lowerChar_ascii low, (isAlpha_toLower low).1] at letter

/-! ### The lower case of a text -/

/-- **The signs of a lower case stand in the text.** -/
theorem mem_of_mem_lowercaseAfter {before text : List Char} {sign : Char} (ascii : sign.toNat < 128)
    (noLetter : sign.isAlpha = false) (member : sign ∈ lowercaseAfter before text) : sign ∈ text := by
  induction text generalizing before with
  | nil => cases member
  | cons first rest ih =>
    rw [lowercaseAfter, List.mem_append] at member
    rcases member with here | later
    · split at here
      · rw [List.mem_singleton.mp here] at ascii
        split at ascii <;> exact absurd ascii (by decide)
      · split at here
        · rcases List.mem_cons.mp here with rfl | mark
          · cases noLetter
          · rw [List.mem_singleton.mp mark] at ascii
            exact absurd ascii (by decide)
        · rw [eq_of_lowerChar ascii noLetter (List.mem_singleton.mp here).symm]
          exact List.mem_cons_self
    · exact List.mem_cons_of_mem first (ih later)

/-- **A text whose lower case is all letters of ASCII** has no other characters than such letters and the
Kelvin sign. -/
theorem letter_of_lowercaseAfter {before text : List Char}
    (letters : ∀ c ∈ lowercaseAfter before text, c.toNat < 128 ∧ c.isAlpha = true) {c : Char}
    (member : c ∈ text) : c.isAlpha = true ∨ c = '\u212A' := by
  induction text generalizing before with
  | nil => cases member
  | cons first rest ih =>
    rw [lowercaseAfter] at letters
    rcases List.mem_cons.mp member with rfl | later
    · have own := fun d inside => letters d (List.mem_append_left _ inside)
      split at own
      · have ascii := (own _ (List.mem_singleton_self _)).1
        split at ascii <;> exact absurd ascii (by decide)
      · split at own
        · have mark := own '\u0307' (List.mem_cons_of_mem _ (List.mem_singleton_self _))
          exact absurd mark.1 (by decide)
        · obtain ⟨ascii, letter⟩ := own _ (List.mem_singleton_self _)
          exact isAlpha_of_lowerChar ascii letter
    · exact ih (fun d inside => letters d (List.mem_append_right _ inside)) later

/-- The character is no part of a word, and lower case leaves it alone. -/
structure EndsWords (c : Char) : Prop where
  solid : isCaseIgnorable c = false
  uncased : isCased c = false
  same : lowerChar c = c

theorem continuesWord_append {c : Char} (ends : EndsWords c) (rest back : List Char) :
    continuesWord (rest ++ c :: back) = continuesWord rest := by
  unfold continuesWord
  induction rest with
  | nil => simp [ends.solid, ends.uncased]
  | cons first rest ih =>
    rw [List.cons_append, List.dropWhile_cons, List.dropWhile_cons]
    split
    · exact ih
    · rfl

/-- **A character outside of words** cuts the lower case of a text in two. -/
theorem lowercaseAfter_append {c : Char} (ends : EndsWords c) (before front back : List Char) :
    lowercaseAfter before (front ++ c :: back) =
      lowercaseAfter before front ++ c :: lowercaseAfter (c :: (front.reverse ++ before)) back := by
  induction front generalizing before with
  | nil =>
    have sigma : c ≠ '\u03A3' := by
      rintro rfl
      exact absurd ends.uncased (by decide +kernel)
    have dotted : c ≠ '\u0130' := by
      rintro rfl
      exact absurd ends.uncased (by decide +kernel)
    simp only [List.nil_append, lowercaseAfter, if_neg sigma, if_neg dotted, ends.same]
    rfl
  | cons first front ih =>
    rw [List.cons_append, lowercaseAfter, lowercaseAfter, continuesWord_append ends, ih,
      List.reverse_cons, List.append_assoc, List.append_assoc]
    rfl

end Localization.Text

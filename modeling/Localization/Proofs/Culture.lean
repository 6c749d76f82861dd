import Localization.Culture
import Localization.Proofs.Text.Lowercase
import Localization.Proofs.Text

/-
**The characters of known cultures.**

The language of a known culture is in lower case one of a list, and its other subtags are letters and
digits. So a character that is neither a letter nor a digit of ASCII is in no such name, unless it is a
separator or the Kelvin sign, whose lower case is a letter of ASCII.

* `Culture.mem_of_isKnown` — the characters that are in known cultures.
* `Culture.not_mem_of_isKnown` — characters that are in no known culture.
* `Culture.not_isBlank_of_isKnown` — a known culture has no blanks.
* `Culture.toList_language` — the language of a culture, by the spelling that names are compared in.
-/

namespace Localization

namespace Culture

open Text

/-- The languages are written in small letters of ASCII. -/
theorem letters_of_mem_languages : ∀ language ∈ languages, ∀ c ∈ language.toList,
    c.toNat < 128 ∧ c.isAlpha = true := by
  have all : (languages.all fun language => language.toList.all fun c =>
      c.toNat < 128 && c.isAlpha) = true := by decide +kernel
  simpa only [List.all_eq_true, Bool.and_eq_true, decide_eq_true_eq] using all

/-- **A known culture is made of letters and digits of ASCII, separators and the Kelvin sign**, which is a k
in lower case. -/
theorem mem_of_isKnown {name : String} (known : isKnown name = true) {c : Char}
    (inside : c ∈ name.toList) : isAlphanumeric c = true ∨ isSeparator c = true ∨ c = '\u212A' := by
  unfold isKnown at known
  obtain ⟨first, others⟩ := Bool.and_eq_true_iff.mp known
  cases joins : isSeparator c with
  | true => exact .inr (.inl rfl)
  | false =>
    obtain ⟨piece, member, found⟩ : ∃ piece ∈ pieces isSeparator name.toList, c ∈ piece :=
      mem_pieces_of_mem inside joins
    rw [head_pieces] at member
    rcases List.mem_cons.mp member with rfl | later
    · have letters := letters_of_mem_languages _ (List.contains_iff_mem.mp first)
      rw [language, String.toList_ofList] at letters
      refine (letter_of_lowercaseAfter letters found).imp (fun letter => ?_) .inr
      exact Bool.or_eq_true_iff.mpr (.inl letter)
    · have short := List.all_eq_true.mp others piece later
      simp only [isShortSubtag, Bool.and_eq_true] at short
      exact .inl (List.all_eq_true.mp short.2 c found)

/-- Other characters are in no known culture. -/
theorem not_mem_of_isKnown {name : String} (known : isKnown name = true) {c : Char}
    (sign : isAlphanumeric c = false) (joins : isSeparator c = false) (other : c ≠ '\u212A') :
    c ∉ name.toList := by
  intro inside
  rcases mem_of_isKnown known inside with letter | separator | kelvin
  · rw [sign] at letter
    cases letter
  · rw [joins] at separator
    cases separator
  · exact other kelvin

/-- The code points of blanks. -/
def blankCodes : List Nat :=
  [9, 10, 11, 12, 13, 0x20, 0x85, 0xA0, 0x1680] ++ (List.range 11).map (0x2000 + ·) ++
    [0x2028, 0x2029, 0x202F, 0x205F, 0x3000]

theorem mem_blankCodes {c : Char} (blank : isBlank c = true) : c.toNat ∈ blankCodes := by
  simp only [isBlank, Bool.or_eq_true, Bool.and_eq_true, decide_eq_true_eq, beq_iff_eq] at blank
  simp only [blankCodes, List.mem_append, List.mem_cons, List.not_mem_nil, or_false, List.mem_map,
    List.mem_range]
  by_cases wide : 0x2000 ≤ c.toNat ∧ c.toNat ≤ 0x200A
  · exact .inl (.inr ⟨c.toNat - 0x2000, by omega, by omega⟩)
  · omega

/-- **A known culture has no blanks.** -/
theorem not_isBlank_of_isKnown {name : String} (known : isKnown name = true) {c : Char}
    (inside : c ∈ name.toList) : isBlank c = false := by
  rw [← Bool.not_eq_true]
  intro blank
  have all : ∀ code ∈ blankCodes, isAlphanumeric (Char.ofNat code) = false ∧
      isSeparator (Char.ofNat code) = false ∧ Char.ofNat code ≠ '\u212A' := by decide +kernel
  obtain ⟨sign, joins, other⟩ := all c.toNat (mem_blankCodes blank)
  rw [Char.ofNat_toNat] at sign joins other
  exact not_mem_of_isKnown known sign joins other inside

/-! ### The language of a culture -/

theorem eq_of_isSeparator {c : Char} (separator : isSeparator c = true) : c = '-' ∨ c = '_' := by
  simpa [isSeparator] using separator

theorem endsWords_of_isSeparator {c : Char} (separator : isSeparator c = true) : EndsWords c := by
  rcases eq_of_isSeparator separator with rfl | rfl <;>
    exact ⟨by decide +kernel, by decide +kernel, by decide +kernel⟩

/-- The lower case of a text without separators has none. -/
theorem not_isSeparator_of_mem_lowercase {text : List Char}
    (clean : ∀ c ∈ text, isSeparator c = false) {c : Char} (member : c ∈ lowercase text) :
    isSeparator c = false := by
  rw [← Bool.not_eq_true]
  intro separator
  have own : c ∈ text := by
    rcases eq_of_isSeparator separator with rfl | rfl <;>
      exact mem_of_mem_lowercaseAfter (by decide) (by decide) member
  rw [clean c own] at separator
  cases separator

/-- Without separators, the spelling that names are compared in is their lower case, up to the first
hyphen. -/
theorem takeWhile_normal {text : List Char} (clean : ∀ c ∈ text, isSeparator c = false)
    (rest : List Char) :
    ((lowercase text).map (fun c => if c = '_' then '-' else c) ++ rest).takeWhile (· ≠ '-') =
      lowercase text ++ rest.takeWhile (· ≠ '-') := by
  have kept : (lowercase text).map (fun c => if c = '_' then '-' else c) = lowercase text := by
    refine (List.map_congr_left fun c member => ?_).trans (List.map_id' _)
    have joins := not_isSeparator_of_mem_lowercase clean member
    exact if_neg (by rintro rfl; cases joins)
  rw [kept]
  refine List.takeWhile_append_of_pos fun c member => decide_eq_true ?_
  have joins := not_isSeparator_of_mem_lowercase clean member
  rintro rfl
  cases joins

/-- **The language of a culture** stands before the first hyphen of the spelling that names are compared
in. -/
theorem toList_language (name : String) :
    (language name).toList = (normalize name).toList.takeWhile (· ≠ '-') := by
  have clean : ∀ c ∈ name.toList.takeWhile (!isSeparator ·), isSeparator c = false := fun c member => by
    simpa using List.all_eq_true.mp List.all_takeWhile c member
  have whole : name.toList.takeWhile (!isSeparator ·) ++ name.toList.dropWhile (!isSeparator ·) =
      name.toList := List.takeWhile_append_dropWhile
  rw [normalize, language, String.toList_ofList, String.toList_ofList]
  generalize name.toList.takeWhile (!isSeparator ·) = front at clean whole ⊢
  cases tail : name.toList.dropWhile (!isSeparator ·) with
  | nil =>
    rw [tail, List.append_nil] at whole
    have taken := takeWhile_normal clean []
    rw [List.append_nil, List.takeWhile_nil, List.append_nil] at taken
    rw [← whole, taken]
  | cons c back =>
    have separator : isSeparator c = true := by
      have head := List.head?_dropWhile_not (!isSeparator ·) name.toList
      rw [tail] at head
      simpa using head
    have hyphen : (if c = '_' then '-' else c) = '-' := by
      rcases eq_of_isSeparator separator with rfl | rfl <;> rfl
    rw [← whole, tail, lowercase, lowercase, lowercaseAfter_append (endsWords_of_isSeparator separator),
      ← lowercase, List.map_append, List.map_cons, hyphen, takeWhile_normal clean,
      List.takeWhile_cons_of_neg (by decide), List.append_nil]

end Culture

end Localization

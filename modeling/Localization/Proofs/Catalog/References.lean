import Localization.Catalog.Line
import Localization.Proofs.Text

/-
**References on comment lines.**

* `mem_of_mem_splitReferences` — tokens are made of the characters of their line.
* `Reference.ofChars?_chars` — a reference is read back from its written form.
* `Recoverable` — the marks in a path do not get in the way of reading it.
* `splitReferences_append` — then a reference is written as one token, isolated or not.
-/

namespace Localization

open Text

namespace Catalog

/-! ### Tokens -/

theorem splitReferences_nil : splitReferences [] = [] := by
  rw [splitReferences.eq_def]

theorem splitReferences_cons (c : Char) (rest : List Char) :
    splitReferences (c :: rest) =
      if isBlank c then splitReferences rest
      else (referenceToken c rest).1 :: splitReferences (referenceToken c rest).2 := by
  rw [splitReferences.eq_def]

theorem mem_of_mem_plainToken {text : List Char} {c : Char}
    (member : c ∈ (plainToken text).1 ∨ c ∈ (plainToken text).2) : c ∈ text := by
  rcases member with front | back
  · exact List.takeWhile_subset _ front
  · exact List.dropWhile_subset _ back

theorem mem_of_mem_isolatedPart {text : List Char} {c : Char}
    (member : c ∈ (isolatedPart text).1 ∨ c ∈ (isolatedPart text).2) : c ∈ text := by
  rcases member with front | back
  · exact List.takeWhile_subset _ front
  · exact List.dropWhile_subset _ (List.drop_subset 1 _ back)

/-- A token and what follows it are made of the characters of the line. -/
theorem mem_of_mem_referenceToken {first : Char} {rest : List Char} {c : Char}
    (member : c ∈ (referenceToken first rest).1 ∨ c ∈ (referenceToken first rest).2) :
    c ∈ first :: rest := by
  unfold referenceToken at member
  split at member
  · refine List.mem_cons_of_mem first (mem_of_mem_isolatedPart ?_)
    rcases member with front | back
    · rcases List.mem_append.mp front with isolated | plain
      · exact .inl isolated
      · exact .inr (mem_of_mem_plainToken (.inl plain))
    · exact .inr (mem_of_mem_plainToken (.inr back))
  · rcases member with front | back
    · rcases List.mem_cons.mp front with rfl | plain
      · exact List.mem_cons_self
      · exact List.mem_cons_of_mem first (mem_of_mem_plainToken (.inl plain))
    · exact List.mem_cons_of_mem first (mem_of_mem_plainToken (.inr back))

/-- **The characters of tokens are characters of their line.** -/
theorem mem_of_mem_splitReferences {text token : List Char} (split : token ∈ splitReferences text)
    {c : Char} (member : c ∈ token) : c ∈ text := by
  match text with
  | [] =>
    rw [splitReferences_nil] at split
    cases split
  | first :: rest =>
    rw [splitReferences_cons] at split
    by_cases blank : isBlank first = true
    · rw [if_pos blank] at split
      exact List.mem_cons_of_mem first (mem_of_mem_splitReferences split member)
    · rw [if_neg blank] at split
      have shorter := referenceToken_length first rest
      rcases List.mem_cons.mp split with rfl | later
      · exact mem_of_mem_referenceToken (.inl member)
      · exact mem_of_mem_referenceToken (.inr (mem_of_mem_splitReferences later member))
termination_by text.length

end Catalog

/-! ### Places -/

namespace Reference

/-- A line number has no colon. -/
theorem colon_not_mem_digits (number : Nat) : ':' ∉ Decimal.digits number := fun member =>
  absurd (Decimal.isDigit_of_mem_digits member) (by decide)

/-- What follows the path of a written reference has no blank. -/
theorem not_isBlank_of_mem_line {number : Nat} {c : Char}
    (member : c ∈ ':' :: Decimal.digits number) : isBlank c = false := by
  rcases List.mem_cons.mp member with rfl | digit
  · decide
  · exact Decimal.not_isBlank_of_isDigit (Decimal.isDigit_of_mem_digits digit)

/-- **A reference is read back from its written form.** -/
theorem ofChars?_chars {place : Reference} (solid : place.path ≠ "")
    (fits : place.line ≤ Decimal.wordMax) : ofChars? place.chars = some place := by
  have clean : ∀ c ∈ Decimal.digits place.line, decide (c = ':') = false := by
    intro c member
    rw [decide_eq_false_iff_not]
    rintro rfl
    exact colon_not_mem_digits place.line member
  have parts : cutLast (· = ':') place.chars = some (place.path.toList, Decimal.digits place.line) :=
    cutLast_append place.path.toList (by decide) clean
  have named : place.path.toList.isEmpty = false := by simpa using solid
  unfold ofChars?
  rw [parts, Option.bind_eq_bind, Option.bind_some]
  simp only [named, Bool.false_eq_true, if_false, Decimal.unsignedWord?_digits fits,
    Option.bind_eq_bind, Option.bind_some, String.ofList_toList]

/-- What is read of a token: its path, which is not empty, and a line number behind a colon. -/
theorem parts_of_ofChars? {token : List Char} {place : Reference}
    (read : ofChars? token = some place) :
    place.path ≠ "" ∧ ∃ line, token = place.path.toList ++ ':' :: line ∧
      Decimal.unsignedWord? line = some place.line := by
  unfold ofChars? at read
  obtain ⟨⟨path, line⟩, parts, read⟩ := Option.bind_eq_some_iff.mp read
  obtain ⟨⟨back, front⟩, turned, same⟩ := Option.map_eq_some_iff.mp parts
  obtain ⟨colon, separator, -, whole⟩ := cut_eq_some turned
  cases same
  cases of_decide_eq_true separator
  dsimp only at read
  split at read
  · cases read
  · rename_i solid
    obtain ⟨number, within, built⟩ := Option.bind_eq_some_iff.mp read
    cases built
    have token := congrArg List.reverse whole
    refine ⟨fun empty => solid ?_, back.reverse, by simpa using token, within⟩
    have gone : String.ofList front.reverse = "" := empty
    rw [List.isEmpty_iff, ← String.toList_ofList (l := front.reverse), gone]
    rfl

/-- What is read of a token lies on a path of its characters. -/
theorem mem_of_ofChars? {token : List Char} {place : Reference}
    (read : ofChars? token = some place) {c : Char} (member : c ∈ place.path.toList) :
    c ∈ token := by
  obtain ⟨-, line, rfl, -⟩ := parts_of_ofChars? read
  exact List.mem_append_left _ member

/-- A place that is read has a path, and its line fits in 64 bits. -/
theorem solid_of_ofChars? {token : List Char} {place : Reference}
    (read : ofChars? token = some place) :
    place.path ≠ "" ∧ place.line ≤ Decimal.wordMax := by
  obtain ⟨solid, line, -, within⟩ := parts_of_ofChars? read
  exact ⟨solid, Decimal.unsignedWord?_le within⟩

end Reference

namespace Catalog

/-! ### Written references -/

/-- A token goes as far as the next blank. -/
theorem plainToken_append {front rest : List Char} (solid : ∀ c ∈ front, isBlank c = false)
    (ends : ∀ c ∈ rest.head?, isBlank c = true) : plainToken (front ++ rest) = (front, rest) := by
  have all : ∀ c ∈ front, (!isBlank c) = true := fun c member => by
    rw [solid c member]
    rfl
  rw [plainToken, List.takeWhile_append_of_pos all, List.dropWhile_append_of_pos all]
  cases rest with
  | nil => simp
  | cons c others => simp [ends c rfl]

theorem isolatedPart_append {front : List Char} (clean : isolateEnd ∉ front) (back : List Char) :
    isolatedPart (front ++ isolateEnd :: back) = (front, back) := by
  have all : ∀ c ∈ front, decide (c ≠ isolateEnd) = true := fun c member => by
    rw [decide_eq_true_iff]
    rintro rfl
    exact clean member
  rw [isolatedPart, List.takeWhile_append_of_pos all, List.dropWhile_append_of_pos all]
  simp

/-- The marks in the path of a reference do not get in the way of reading it. If the path holds blanks, then
closing marks stand only at its end; and if it holds none, then it does not start with an opening mark. -/
def Recoverable (place : Reference) : Prop :=
  if place.path.toList.any isBlank then
    ∀ c ∈ place.path.toList.dropWhile (· ≠ isolateEnd), c = isolateEnd
  else place.path.toList.head? ≠ some isolateStart

instance (place : Reference) : Decidable (Recoverable place) :=
  -- By the characters behind the mark: those of the whole type are too many to be run through.
  letI : Decidable (∀ c ∈ place.path.toList.dropWhile (· ≠ isolateEnd), c = isolateEnd) :=
    List.decidableBAll _ _
  inferInstanceAs (Decidable (if place.path.toList.any isBlank then _ else _))

theorem recoverable_of_unmarked {place : Reference} (unopened : isolateStart ∉ place.path.toList)
    (unclosed : isolateEnd ∉ place.path.toList) : Recoverable place := by
  have gone : (place.path.toList ++ []).dropWhile (· ≠ isolateEnd) = [] :=
    List.dropWhile_append_of_pos fun c member => decide_eq_true fun same => unclosed (same ▸ member)
  rw [List.append_nil] at gone
  unfold Recoverable
  split
  · rw [gone]
    exact nofun
  · exact fun first => unopened (List.mem_of_mem_head? first)

/-- Closing marks in a row are the same from both ends. -/
theorem closing_append {marks : List Char} (closing : ∀ c ∈ marks, c = isolateEnd) (back : List Char) :
    marks ++ isolateEnd :: back = isolateEnd :: (marks ++ back) := by
  induction marks with
  | nil => rfl
  | cons c rest ih =>
    obtain ⟨rfl, later⟩ := List.forall_mem_cons.mp closing
    rw [List.cons_append, ih later, List.cons_append]

/-- The part of a text before its first closing mark. -/
theorem isolateEnd_not_mem_front (text : List Char) :
    isolateEnd ∉ text.takeWhile (· ≠ isolateEnd) := fun member => by
  have other := List.all_eq_true.mp List.all_takeWhile isolateEnd member
  simp at other

/-- **A reference is written as one token**, which is isolated if its path holds blanks, and what follows is
read by itself. -/
theorem splitReferences_append {place : Reference} (solid : place.path ≠ "")
    (recoverable : Recoverable place) {rest : List Char} (ends : ∀ c ∈ rest.head?, isBlank c = true) :
    splitReferences (referenceChars place ++ rest) = place.chars :: splitReferences rest := by
  have line : ∀ c ∈ ':' :: Decimal.digits place.line, isBlank c = false :=
    fun c => Reference.not_isBlank_of_mem_line
  unfold referenceChars
  unfold Recoverable at recoverable
  by_cases blank : place.path.toList.any isBlank = true
  · rw [if_pos blank] at recoverable ⊢
    have mark : isBlank isolateStart = false := by decide
    have whole := List.takeWhile_append_dropWhile (p := (· ≠ isolateEnd)) (l := place.path.toList)
    have clean := isolateEnd_not_mem_front place.path.toList
    generalize place.path.toList.takeWhile (· ≠ isolateEnd) = front at whole clean
    generalize place.path.toList.dropWhile (· ≠ isolateEnd) = marks at whole recoverable
    have token : ∀ c ∈ marks ++ ':' :: Decimal.digits place.line, isBlank c = false := by
      intro c member
      rcases List.mem_append.mp member with closing | number
      · rw [recoverable c closing]
        decide
      · exact line c number
    have moved : isolateStart :: (place.path.toList ++ isolateEnd :: ':' :: Decimal.digits place.line) ++ rest =
        isolateStart :: (front ++ isolateEnd :: ((marks ++ ':' :: Decimal.digits place.line) ++ rest)) := by
      rw [← whole]
      simp [closing_append recoverable]
    rw [moved, splitReferences_cons, mark, referenceToken, if_pos rfl]
    simp only [isolatedPart_append clean, plainToken_append token ends, Bool.false_eq_true, if_false]
    rw [Reference.chars, ← whole, List.append_assoc]
  · rw [if_neg blank] at recoverable ⊢
    have clean : ∀ c ∈ place.chars, isBlank c = false := by
      intro c member
      rcases List.mem_append.mp member with path | number
      · simp only [List.any_eq_true, not_exists, not_and, Bool.not_eq_true] at blank
        exact blank c path
      · exact line c number
    cases path : place.path.toList with
    | nil => exact absurd (String.toList_eq_nil_iff.mp path) solid
    | cons c others =>
      have whole : place.chars = c :: (others ++ ':' :: Decimal.digits place.line) := by
        rw [Reference.chars, path, List.cons_append]
      rw [whole] at clean ⊢
      have first : c ≠ isolateStart := by
        rintro rfl
        exact recoverable (by rw [path]; rfl)
      have token := plainToken_append (fun d member => clean d (List.mem_cons_of_mem c member)) ends
      rw [List.cons_append, splitReferences_cons, clean c List.mem_cons_self, referenceToken, if_neg first]
      simp only [token, Bool.false_eq_true, if_false]

/-- A reference alone is read as one token. -/
theorem splitReferences_referenceChars {place : Reference} (solid : place.path ≠ "")
    (recoverable : Recoverable place) : splitReferences (referenceChars place) = [place.chars] := by
  have alone : splitReferences (referenceChars place ++ []) = place.chars :: splitReferences [] :=
    splitReferences_append solid recoverable nofun
  rwa [List.append_nil, splitReferences_nil] at alone

theorem referenceChars_ne_nil (place : Reference) : referenceChars place ≠ [] := by
  unfold referenceChars Reference.chars
  split <;> simp

/-- A written reference ends in a digit. -/
theorem trimEnd_referenceChars (place : Reference) :
    trimEnd (referenceChars place) = referenceChars place := by
  obtain ⟨front, last, digit, same⟩ : ∃ front last, last.isDigit = true ∧
      Decimal.digits place.line = front ++ [last] := by
    rcases List.eq_nil_or_concat (Decimal.digits place.line) with empty | ⟨front, last, same⟩
    · exact absurd empty (Decimal.digits_ne_nil place.line)
    · rw [List.concat_eq_append] at same
      exact ⟨front, last, Decimal.isDigit_of_mem_digits (by rw [same]; simp), same⟩
  have ends : ∃ front, referenceChars place = front ++ [last] := by
    unfold referenceChars Reference.chars
    rw [same]
    split
    · exact ⟨isolateStart :: (place.path.toList ++ isolateEnd :: ':' :: front), by simp⟩
    · exact ⟨place.path.toList ++ ':' :: front, by simp⟩
  obtain ⟨front, whole⟩ := ends
  rw [whole]
  exact trimEnd_concat front (Decimal.not_isBlank_of_isDigit digit)

theorem newline_not_mem_referenceChars {place : Reference} (clean : '\n' ∉ place.path.toList) :
    '\n' ∉ referenceChars place := by
  have line : '\n' ∉ ':' :: Decimal.digits place.line := fun member =>
    absurd (Reference.not_isBlank_of_mem_line member) (by decide)
  have marks : '\n' ≠ isolateStart ∧ '\n' ≠ isolateEnd := by decide
  unfold referenceChars Reference.chars
  split
  · rw [List.mem_cons, List.mem_append, List.mem_cons]
    rintro (opened | path | closed | number)
    · exact marks.1 opened
    · exact clean path
    · exact marks.2 closed
    · exact line number
  · rw [List.mem_append]
    rintro (path | number)
    · exact clean path
    · exact line number

end Catalog

end Localization

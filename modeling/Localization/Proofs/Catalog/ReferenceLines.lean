import Localization.Proofs.Catalog.Items
import Localization.Proofs.Text.Decimal
import Mathlib.Data.Finset.Max
import Mathlib.Data.Prod.Lex

/-
**References in any arrangement on comment lines.**

References can be written one on a line or many, and in any order. Blanks in a path are kept by marks around
it, and these marks are not told apart from the same characters in a path. So a set of references is read back
from every arrangement exactly if the marks in their paths do not get in the way.

* `placesText`, `placesOf` — references on comment lines, written and read.
* `placesOf_placesText_of_recoverable` — every arrangement of recoverable references is read back in order.
* `rank_lt_of_mem_rereadPlaces` — what is read of a reference that is not recoverable is shorter, or has its
  closing marks further behind.
* `arranged_iff` — sets of references that are read back.
-/

namespace Localization.Catalog

open Text

/-! ### Lines of references -/

/-- A comment line with references, a space before each. -/
def placesLine (row : List Reference) : List Char :=
  '#' :: ':' :: row.flatMap fun place => ' ' :: referenceChars place

/-- Comment lines with references, a row of references on each. -/
def placesText (rows : List (List Reference)) : List Char :=
  (rows.map placesLine).flatMap (· ++ ['\n'])

/-- The references on a line. -/
def placesOn (line : List Char) : List Reference :=
  match Line.ofChars line with
  | .ok (.comment (.references places)) => places
  | _ => []

/-- The references on the lines of a text. -/
def placesOf (text : List Char) : List Reference :=
  (Text.lines text).flatMap placesOn

variable {place other : Reference} {row : List Reference} {rows : List (List Reference)}

theorem trimEnd_row (row : List Reference) :
    trimEnd (row.flatMap fun place => ' ' :: referenceChars place) =
      row.flatMap fun place => ' ' :: referenceChars place := by
  induction row with
  | nil => rfl
  | cons place rest ih =>
    rw [List.flatMap_cons]
    cases rest with
    | nil =>
      have solid : trimEnd (referenceChars place) ≠ [] := by
        rw [trimEnd_referenceChars]
        exact referenceChars_ne_nil place
      have kept : trimEnd ([' '] ++ referenceChars place) = [' '] ++ trimEnd (referenceChars place) :=
        trimEnd_append solid
      rw [trimEnd_referenceChars] at kept
      simpa using kept
    | cons next others =>
      rw [trimEnd_append (by rw [ih]; simp), ih]

/-- **A line has the references that its tokens name.** -/
theorem placesOn_placesLine (row : List Reference) :
    placesOn (placesLine row) =
      (splitReferences (row.flatMap fun place => ' ' :: referenceChars place)).filterMap
        Reference.ofChars? := by
  have colon : isBlank ':' = false := by decide
  have plain (rest : List Char) : (':' :: rest).head? ≠ some '~' := by simp
  rw [placesOn, placesLine, Line.ofChars_number (plain _), trimEnd_cons_of_solid _ colon, trimEnd_row]
  rfl

theorem newline_not_mem_placesLine (clean : ∀ place ∈ row, '\n' ∉ place.path.toList) :
    '\n' ∉ placesLine row := by
  simp only [placesLine, List.mem_cons, List.mem_flatMap, not_or, not_exists, not_and]
  refine ⟨by decide, by decide, fun place member => ⟨by decide, ?_⟩⟩
  exact newline_not_mem_referenceChars (clean place member)

/-- Lines of references are read line by line. -/
theorem placesOf_placesText (clean : ∀ row ∈ rows, ∀ place ∈ row, '\n' ∉ place.path.toList) :
    placesOf (placesText rows) = rows.flatMap fun row => placesOn (placesLine row) := by
  have whole : (rows.map placesLine).flatMap cutLines = rows.map placesLine :=
    flatMap_cutLines fun line member => by
      obtain ⟨row, inside, rfl⟩ := List.mem_map.mp member
      exact newline_not_mem_placesLine (clean row inside)
  have trimmed (line : List Char) : placesOn (dropReturn line) = placesOn line := by
    rw [placesOn, placesOn, Line.ofChars_dropReturn]
  rw [placesOf, placesText, lines_flatMap, whole, List.flatMap_map, List.flatMap_map]
  simp only [trimmed]

/-! ### References that are read back -/

/-- A reference to be written: its path is not empty and has no newline, and its line fits in 64 bits. -/
structure Named (place : Reference) : Prop where
  solid : place.path ≠ ""
  clean : '\n' ∉ place.path.toList
  fits : place.line ≤ Decimal.wordMax

instance (place : Reference) : Decidable (Named place) :=
  decidable_of_iff (place.path ≠ "" ∧ '\n' ∉ place.path.toList ∧ place.line ≤ Decimal.wordMax)
    ⟨fun parts => ⟨parts.1, parts.2.1, parts.2.2⟩, fun named => ⟨named.solid, named.clean, named.fits⟩⟩

/-- The tokens of references in a row. -/
theorem splitReferences_row (named : ∀ place ∈ row, Named place)
    (recoverable : ∀ place ∈ row, Recoverable place) :
    splitReferences (row.flatMap fun place => ' ' :: referenceChars place) = row.map Reference.chars := by
  have space : isBlank ' ' = true := by decide
  induction row with
  | nil => exact splitReferences_nil
  | cons place rest ih =>
    obtain ⟨here, later⟩ := List.forall_mem_cons.mp named
    obtain ⟨plain, others⟩ := List.forall_mem_cons.mp recoverable
    have ends : ∀ c ∈ (rest.flatMap fun place => ' ' :: referenceChars place).head?, isBlank c = true := by
      cases rest with
      | nil => exact nofun
      | cons next others =>
        rintro c ⟨⟩
        exact space
    rw [List.flatMap_cons, List.cons_append, splitReferences_cons, if_pos space,
      splitReferences_append here.solid plain ends, ih later others, List.map_cons]

/-- **Recoverable references are read back in the order in which they are written.** -/
theorem placesOf_placesText_of_recoverable (named : ∀ row ∈ rows, ∀ place ∈ row, Named place)
    (recoverable : ∀ row ∈ rows, ∀ place ∈ row, Recoverable place) :
    placesOf (placesText rows) = rows.flatten := by
  have each : ∀ row ∈ rows, placesOn (placesLine row) = row := by
    intro row member
    have back : ∀ place ∈ row, Reference.ofChars? place.chars = some place := fun place inside =>
      Reference.ofChars?_chars (named row member place inside).solid (named row member place inside).fits
    rw [placesOn_placesLine, splitReferences_row (named row member) (recoverable row member),
      List.filterMap_map]
    exact (List.filterMap_congr back).trans List.filterMap_some
  rw [placesOf_placesText fun row member place inside => (named row member place inside).clean,
    List.flatMap_def, List.map_congr_left each, List.map_id']

/-! ### References that are not read back -/

theorem length_plainToken (text : List Char) :
    (plainToken text).1.length + (plainToken text).2.length = text.length := by
  rw [plainToken, ← List.length_append, List.takeWhile_append_dropWhile]

/-- An opening mark is no part of the token that it opens. -/
theorem length_isolatedToken (rest : List Char) :
    (referenceToken isolateStart rest).1.length + (referenceToken isolateStart rest).2.length ≤
      rest.length := by
  have isolated : (isolatedPart rest).1.length + (isolatedPart rest).2.length ≤ rest.length := by
    have parts := congrArg List.length
      (List.takeWhile_append_dropWhile (p := (· ≠ isolateEnd)) (l := rest))
    rw [List.length_append] at parts
    simp only [isolatedPart, List.length_drop]
    omega
  have plain := length_plainToken (isolatedPart rest).2
  rw [referenceToken, if_pos rfl]
  simp only [List.length_append]
  omega

theorem length_referenceToken (c : Char) (rest : List Char) :
    (referenceToken c rest).1.length + (referenceToken c rest).2.length ≤ rest.length + 1 := by
  by_cases opening : c = isolateStart
  · subst opening
    exact Nat.le_succ_of_le (length_isolatedToken rest)
  · have plain := length_plainToken rest
    rw [referenceToken, if_neg opening]
    simp only [List.length_cons]
    omega

/-- No token is longer than its line. -/
theorem length_le_of_mem_splitReferences {text token : List Char}
    (split : token ∈ splitReferences text) : token.length ≤ text.length := by
  match text with
  | [] =>
    rw [splitReferences_nil] at split
    cases split
  | first :: rest =>
    rw [splitReferences_cons] at split
    by_cases blank : isBlank first = true
    · rw [if_pos blank] at split
      exact Nat.le_succ_of_le (length_le_of_mem_splitReferences split)
    · rw [if_neg blank] at split
      have shorter := referenceToken_length first rest
      have parts := length_referenceToken first rest
      rw [List.length_cons]
      rcases List.mem_cons.mp split with rfl | later
      · omega
      · have below := length_le_of_mem_splitReferences later
        omega
termination_by text.length

/-- A reference is written in no more characters than any token that is read as it. -/
theorem length_chars_le {token : List Char} (read : Reference.ofChars? token = some other) :
    other.chars.length ≤ token.length := by
  obtain ⟨-, line, rfl, number⟩ := Reference.parts_of_ofChars? read
  have shorter := Decimal.length_digits_le number
  simp only [Reference.chars, List.length_append, List.length_cons]
  omega

/-- How many pairs there are in a text of a closing mark and another character behind it. -/
def unsettled : List Char → Nat
  | [] => 0
  | c :: rest => (if c = isolateEnd then rest.countP (· ≠ isolateEnd) else 0) + unsettled rest

theorem unsettled_append_of_clean {front : List Char} (clean : isolateEnd ∉ front) (back : List Char) :
    unsettled (front ++ back) = unsettled back := by
  induction front with
  | nil => rfl
  | cons c rest ih =>
    rw [List.mem_cons, not_or] at clean
    rw [List.cons_append, unsettled, if_neg (Ne.symm clean.1), ih clean.2, Nat.zero_add]

theorem unsettled_concat (front : List Char) : unsettled (front ++ [isolateEnd]) = unsettled front := by
  induction front with
  | nil => rfl
  | cons c rest ih =>
    rw [List.cons_append, unsettled, ih, unsettled]
    simp [List.countP_append]

/-- References by their length as it is without marks, and then by the closing marks within their paths. -/
def rank (place : Reference) : Nat ×ₗ Nat :=
  toLex (place.chars.length, unsettled place.path.toList)

theorem rank_lt_iff : rank other < rank place ↔
    other.chars.length < place.chars.length ∨ other.chars.length = place.chars.length ∧
      unsettled other.path.toList < unsettled place.path.toList :=
  Prod.Lex.toLex_lt_toLex

/-- A path with blanks in which something stands behind a closing mark. -/
theorem exists_of_blank (blank : place.path.toList.any isBlank = true) (bad : ¬ Recoverable place) :
    ∃ front back, place.path.toList = front ++ isolateEnd :: back ∧ isolateEnd ∉ front ∧
      ∃ c ∈ back, c ≠ isolateEnd := by
  unfold Recoverable at bad
  rw [if_pos blank] at bad
  have whole := List.takeWhile_append_dropWhile (p := (· ≠ isolateEnd)) (l := place.path.toList)
  have clean := isolateEnd_not_mem_front place.path.toList
  have first := List.head?_dropWhile_not (· ≠ isolateEnd) place.path.toList
  cases behind : place.path.toList.dropWhile (· ≠ isolateEnd) with
  | nil =>
    rw [behind] at bad
    exact absurd (List.forall_mem_nil _) bad
  | cons d back =>
    rw [behind] at bad whole first
    have closing : d = isolateEnd := by simpa using first
    subst closing
    refine ⟨_, back, whole.symm, clean, ?_⟩
    by_contra settled
    refine bad (List.forall_mem_cons.mpr ⟨rfl, fun c member => ?_⟩)
    by_contra other
    exact settled ⟨c, member, other⟩

/-- What is read of a path without blanks behind an opening mark. -/
theorem length_of_unblank (plain : ¬ place.path.toList.any isBlank = true) (bad : ¬ Recoverable place)
    (read : other ∈ rereadPlaces place) : other.chars.length < place.chars.length := by
  obtain ⟨token, split, read⟩ := List.mem_filterMap.mp read
  unfold Recoverable at bad
  rw [if_neg plain, not_not] at bad
  obtain ⟨path, opened⟩ := List.head?_eq_some_iff.mp bad
  have mark : isBlank isolateStart = false := by decide
  rw [referenceChars, if_neg plain, Reference.chars, opened, List.cons_append, splitReferences_cons, mark,
    if_neg Bool.false_ne_true] at split
  have parts := length_isolatedToken (path ++ ':' :: Decimal.digits place.line)
  have shorter := length_chars_le read
  have size : place.chars.length = (path ++ ':' :: Decimal.digits place.line).length + 1 := by
    rw [Reference.chars, opened]
    rfl
  rcases List.mem_cons.mp split with rfl | later
  · omega
  · have below := length_le_of_mem_splitReferences later
    omega

/-- What is read of a path with blanks behind a closing mark, or with the closing mark moved to its end. -/
theorem rereadPlaces_cases {front back : List Char} (fits : place.line ≤ Decimal.wordMax)
    (blank : place.path.toList.any isBlank = true)
    (path : place.path.toList = front ++ isolateEnd :: back) (clean : isolateEnd ∉ front)
    (read : other ∈ rereadPlaces place) :
    other.chars.length < place.chars.length ∨
      other = ⟨String.ofList (front ++ back ++ [isolateEnd]), place.line⟩ := by
  obtain ⟨token, split, read⟩ := List.mem_filterMap.mp read
  have mark : isBlank isolateStart = false := by decide
  have shorter := length_chars_le read
  have size : place.chars.length = front.length + back.length + (Decimal.digits place.line).length + 2 := by
    rw [Reference.chars, path]
    simp only [List.length_append, List.length_cons]
    omega
  rw [referenceChars, if_pos blank, path, List.append_assoc, List.cons_append, splitReferences_cons, mark,
    if_neg Bool.false_ne_true, referenceToken, if_pos rfl, isolatedPart_append clean] at split
  cases parts : cut isBlank back with
  | none =>
    have solid : ∀ c ∈ back ++ isolateEnd :: ':' :: Decimal.digits place.line, isBlank c = false := by
      intro c member
      rcases List.mem_append.mp member with inside | behind
      · exact cut_eq_none.mp parts c inside
      · rcases List.mem_cons.mp behind with rfl | line
        · decide
        · exact Reference.not_isBlank_of_mem_line line
    have last : plainToken (back ++ isolateEnd :: ':' :: Decimal.digits place.line ++ []) = _ :=
      plainToken_append solid fun c first => by cases first
    rw [List.append_nil] at last
    simp only [last, splitReferences_nil, List.mem_singleton] at split
    have moved : token = Reference.chars ⟨String.ofList (front ++ back ++ [isolateEnd]), place.line⟩ := by
      rw [split, Reference.chars, String.toList_ofList]
      simp
    have filled : (⟨String.ofList (front ++ back ++ [isolateEnd]), place.line⟩ : Reference).path ≠ "" :=
      fun empty => by simpa using congrArg String.toList empty
    rw [moved, Reference.ofChars?_chars filled fits] at read
    exact .inr (Option.some.inj read).symm
  | some pair =>
    obtain ⟨inner, rest⟩ := pair
    obtain ⟨d, gap, solid, rfl⟩ := cut_eq_some parts
    have ends (others : List Char) : ∀ c ∈ (d :: others).head?, isBlank c = true := by
      rintro c ⟨⟩
      exact gap
    have passed := plainToken_append solid (ends (rest ++ isolateEnd :: ':' :: Decimal.digits place.line))
    rw [List.append_assoc, List.cons_append] at split
    simp only [passed, splitReferences_cons, gap, if_true, List.mem_cons] at split
    simp only [List.length_append, List.length_cons] at size
    refine .inl ?_
    rcases split with rfl | later
    · simp only [List.length_append] at shorter
      omega
    · have below := length_le_of_mem_splitReferences later
      simp only [List.length_append, List.length_cons] at below
      omega

/-- **What is read of a reference that is not recoverable ranks below it.** -/
theorem rank_lt_of_mem_rereadPlaces (fits : place.line ≤ Decimal.wordMax) (bad : ¬ Recoverable place)
    (read : other ∈ rereadPlaces place) : rank other < rank place := by
  rw [rank_lt_iff]
  by_cases blank : place.path.toList.any isBlank = true
  · obtain ⟨front, back, path, clean, c, inside, solid⟩ := exists_of_blank blank bad
    rcases rereadPlaces_cases fits blank path clean read with shorter | rfl
    · exact .inl shorter
    · have some : 0 < back.countP (· ≠ isolateEnd) :=
        List.countP_pos_iff.mpr ⟨c, inside, decide_eq_true solid⟩
      refine .inr ⟨?_, ?_⟩
      · simp [Reference.chars, path]
        omega
      · rw [String.toList_ofList, unsettled_concat, unsettled_append_of_clean clean, path,
          unsettled_append_of_clean clean, unsettled, if_pos rfl]
        omega
  · exact .inl (length_of_unblank blank bad read)

/-! ### Sets of references -/

/-- One reference on each line. -/
theorem placesOf_singles {places : List Reference} (clean : ∀ place ∈ places, '\n' ∉ place.path.toList) :
    placesOf (placesText (places.map ([·]))) = places.flatMap rereadPlaces := by
  have space : isBlank ' ' = true := by decide
  have each (place : Reference) : placesOn (placesLine [place]) = rereadPlaces place := by
    rw [placesOn_placesLine, List.flatMap_singleton, splitReferences_cons, if_pos space]
    rfl
  have single : ∀ row ∈ places.map ([·]), ∀ place ∈ row, '\n' ∉ place.path.toList := by
    intro row member place inside
    obtain ⟨own, held, rfl⟩ := List.mem_map.mp member
    rw [List.mem_singleton.mp inside]
    exact clean own held
  rw [placesOf_placesText single, List.flatMap_map]
  simp only [each]

/-- **A set of references is read back from every arrangement on comment lines exactly if the marks in
their paths do not get in the way**: a path with blanks has closing marks only at its end, and one without
does not start with an opening mark. -/
theorem arranged_iff {places : SortedSet Reference} (named : ∀ place ∈ places.keys, Named place) :
    (∀ rows, SortedSet.ofList rows.flatten = places →
      SortedSet.ofList (placesOf (placesText rows)) = places) ↔
      ∀ place ∈ places.keys, Recoverable place := by
  constructor
  · intro arranged
    by_contra marked
    obtain ⟨place, member, bad⟩ : ∃ place ∈ places.keys, ¬ Recoverable place := by
      simpa using marked
    have singles := arranged (places.keys.map ([·])) (by
      rw [← List.flatMap_def, List.flatMap_singleton']
      exact SortedSet.ofList_keys places)
    rw [placesOf_singles fun place inside => (named place inside).clean] at singles
    -- A reference of the highest rank among those that are not recoverable is read from no line.
    obtain ⟨worst, inside, highest⟩ := Finset.exists_max_image
      (places.keys.toFinset.filter (¬ Recoverable ·)) rank ⟨place, by simp [member, bad]⟩
    obtain ⟨held, lost⟩ : worst ∈ places.keys ∧ ¬ Recoverable worst := by simpa using inside
    rw [← singles, SortedSet.mem_keys_ofList] at held
    obtain ⟨source, known, read⟩ := List.mem_flatMap.mp held
    by_cases safe : Recoverable source
    · rw [rereadPlaces_of_recoverable (named source known).solid safe (named source known).fits,
        List.mem_singleton] at read
      exact lost (read ▸ safe)
    · have below := rank_lt_of_mem_rereadPlaces (named source known).fits safe read
      exact absurd (highest source (by simp [known, safe])) (not_le_of_gt below)
  · intro recoverable rows arranged
    have inside : ∀ row ∈ rows, ∀ place ∈ row, place ∈ places.keys := by
      intro row member place there
      rw [← arranged, SortedSet.mem_keys_ofList]
      exact List.mem_flatten.mpr ⟨row, member, there⟩
    rw [placesOf_placesText_of_recoverable
      (fun row member place there => named place (inside row member place there))
      (fun row member place there => recoverable place (inside row member place there)), arranged]

/-- Blanks, colons and marks in paths, on two lines in another order than in the set. -/
theorem arranged_markedPaths :
    SortedSet.ofList (placesOf (placesText
      [[⟨"x\u2068.html", 1⟩, ⟨"C:/My Page:7.html", 2⟩], [⟨"a b\u2069\u2069", Decimal.wordMax⟩]])) =
      SortedSet.ofList
        [⟨"C:/My Page:7.html", 2⟩, ⟨"a b\u2069\u2069", Decimal.wordMax⟩, ⟨"x\u2068.html", 1⟩] :=
  (arranged_iff (by decide +kernel)).mpr (by decide +kernel) _ (by decide +kernel)

/-- An opening mark at the start of a path without blanks is read as one that opens the path, and behind a
closing mark within a path with blanks the path goes on. -/
theorem placesOf_misplacedMarks :
    Named ⟨"\u2068a.html", 1⟩ ∧ placesOf (placesText [[⟨"\u2068a.html", 1⟩]]) = [⟨"a.html", 1⟩] ∧
      Named ⟨"a b\u2069c", 1⟩ ∧ placesOf (placesText [[⟨"a b\u2069c", 1⟩]]) = [⟨"a bc\u2069", 1⟩] := by
  decide +kernel

end Localization.Catalog

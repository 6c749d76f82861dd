import Localization.Text.Blank
import Localization.Text.Decimal
import Localization.Text.Pieces

/-
**Texts cut into lines, trimmed, and numbers read back.**

* `pieces_append`, `mem_of_mem_pieces` — cutting a text at separators, part by part.
* `cut_append`, `cutLast_append` — cutting it at one of them.
* `lines_flatMap` — the lines of a text that is written line by line.
* `trimEnd_cons`, `trimEnd_append` — trimming a text from the front on.
* `Decimal.unsignedWord?_digits` — a number within 64 bits is read back from its digits.
-/

namespace Localization

instance exceptDecidableEq {ε α : Type} [DecidableEq ε] [DecidableEq α] :
    DecidableEq (Except ε α)
  | .ok first, .ok second => decidable_of_iff (first = second) (by simp)
  | .error first, .error second => decidable_of_iff (first = second) (by simp)
  | .ok _, .error _ => isFalse nofun
  | .error _, .ok _ => isFalse nofun

theorem eq_ok_of_mem_toOption {ε α : Type} {result : Except ε α} {value : α}
    (member : value ∈ result.toOption) : result = .ok value := by
  cases result with
  | error error => cases member
  | ok other =>
    cases member
    rfl

theorem exists_of_any_toOption {ε α : Type} (result : Except ε α) (test : α → Bool)
    (holds : result.toOption.any test = true) : ∃ value, result = .ok value ∧ test value = true := by
  obtain ⟨value, found, passes⟩ := (Option.any_eq_true _ _).mp holds
  exact ⟨value, eq_ok_of_mem_toOption found, passes⟩

theorem map_eq_ok_iff {ε α β : Type} {result : Except ε α} {f : α → β} {value : β} :
    result.map f = .ok value ↔ ∃ inner, result = .ok inner ∧ f inner = value := by
  cases result <;> simp [Except.map]

theorem map_eq_error_iff {ε α β : Type} {result : Except ε α} {f : α → β} {failure : ε} :
    result.map f = .error failure ↔ result = .error failure := by
  cases result <;> simp [Except.map]

theorem mapError_eq_ok_iff {ε ε' α : Type} {result : Except ε α} {f : ε → ε'} {value : α} :
    result.mapError f = .ok value ↔ result = .ok value := by
  cases result with
  | error error => exact ⟨nofun, nofun⟩
  | ok other =>
    constructor
    · rintro ⟨⟩
      rfl
    · rintro ⟨⟩
      rfl

theorem map_returns_iff {ε α β : Type} {result : Except ε α} {f : α → β} :
    (∃ value, result.map f = .ok value) ↔ ∃ value, result = .ok value := by
  cases result <;> simp [Except.map]

end Localization

namespace Localization.Text

/-! ### Pieces -/

section Pieces

variable {separates : Char → Bool}

/-- A separator between two texts separates their pieces. -/
theorem pieces_append (front : List Char) {c : Char} (separator : separates c = true)
    (back : List Char) :
    pieces separates (front ++ c :: back) = pieces separates front ++ pieces separates back := by
  induction front with
  | nil => simp [pieces, separator]
  | cons d rest ih =>
    rw [List.cons_append, pieces, pieces]
    by_cases here : separates d = true
    · rw [if_pos here, if_pos here, ih, List.cons_append]
    · rw [if_neg here, if_neg here, ih]
      cases parts : pieces separates rest with
      | nil => exact absurd parts (pieces_ne_nil separates rest)
      | cons first others => rfl

/-- A text without separators is in one piece. -/
theorem pieces_of_clean {text : List Char} (clean : ∀ c ∈ text, separates c = false) :
    pieces separates text = [text] := by
  induction text with
  | nil => rfl
  | cons c rest ih =>
    have here : separates c = false := clean c List.mem_cons_self
    rw [pieces, ih fun d member => clean d (List.mem_cons_of_mem c member), here]
    rfl

theorem head_pieces (separates : Char → Bool) (text : List Char) :
    pieces separates text = text.takeWhile (!separates ·) :: (pieces separates text).tail := by
  induction text with
  | nil => rfl
  | cons c rest ih =>
    rw [pieces]
    by_cases here : separates c = true
    · rw [if_pos here, List.takeWhile_cons_of_neg (by simp [here]), List.tail_cons]
    · rw [if_neg here, List.takeWhile_cons_of_pos (by simp [here]), ih]
      rfl

/-- A character that separates nothing is in a piece. -/
theorem mem_pieces_of_mem {text : List Char} {c : Char} (member : c ∈ text)
    (plain : separates c = false) : ∃ piece ∈ pieces separates text, c ∈ piece := by
  induction text with
  | nil => cases member
  | cons d rest ih =>
    rw [pieces]
    by_cases here : separates d = true
    · rw [if_pos here]
      rcases List.mem_cons.mp member with rfl | later
      · rw [plain] at here
        cases here
      · obtain ⟨piece, inside, found⟩ := ih later
        exact ⟨piece, List.mem_cons_of_mem _ inside, found⟩
    · rw [if_neg here]
      cases parts : pieces separates rest with
      | nil => exact absurd parts (pieces_ne_nil _ _)
      | cons first others =>
        rw [parts] at ih
        rcases List.mem_cons.mp member with rfl | later
        · exact ⟨c :: first, List.mem_cons_self, List.mem_cons_self⟩
        · obtain ⟨piece, inside, found⟩ := ih later
          rcases List.mem_cons.mp inside with rfl | further
          · exact ⟨d :: piece, List.mem_cons_self, List.mem_cons_of_mem d found⟩
          · exact ⟨piece, List.mem_cons_of_mem _ further, found⟩

/-- The characters of a piece are no separators, and they are characters of the text. -/
theorem mem_of_mem_pieces {text piece : List Char} (cut : piece ∈ pieces separates text) {c : Char}
    (member : c ∈ piece) : separates c = false ∧ c ∈ text := by
  induction text generalizing piece with
  | nil =>
    rw [pieces, List.mem_singleton] at cut
    subst cut
    cases member
  | cons d rest ih =>
    rw [pieces] at cut
    by_cases here : separates d = true
    · rw [if_pos here] at cut
      rcases List.mem_cons.mp cut with rfl | later
      · cases member
      · exact ⟨(ih later member).1, List.mem_cons_of_mem d (ih later member).2⟩
    · rw [if_neg here] at cut
      cases parts : pieces separates rest with
      | nil => exact absurd parts (pieces_ne_nil separates rest)
      | cons first others =>
        rw [parts] at cut ih
        rcases List.mem_cons.mp cut with rfl | later
        · rcases List.mem_cons.mp member with rfl | inside
          · exact ⟨by simpa using here, List.mem_cons_self⟩
          · have found := ih List.mem_cons_self inside
            exact ⟨found.1, List.mem_cons_of_mem d found.2⟩
        · have found := ih (List.mem_cons_of_mem first later) member
          exact ⟨found.1, List.mem_cons_of_mem d found.2⟩

/-- A text is cut at the first separator. -/
theorem cut_append {front : List Char}
    (clean : ∀ c ∈ front, separates c = false) {c : Char} (separator : separates c = true)
    (back : List Char) : cut separates (front ++ c :: back) = some (front, back) := by
  induction front with
  | nil => simp [cut, separator]
  | cons d rest ih =>
    have here : separates d = false := clean d List.mem_cons_self
    rw [List.cons_append, cut, ih fun e member => clean e (List.mem_cons_of_mem d member), here]
    rfl

/-- A text is cut at the last separator. -/
theorem cutLast_append (front : List Char) {c : Char} (separator : separates c = true)
    {back : List Char} (clean : ∀ c ∈ back, separates c = false) :
    cutLast separates (front ++ c :: back) = some (front, back) := by
  have turned : (front ++ c :: back).reverse = back.reverse ++ c :: front.reverse := by simp
  have found := cut_append (fun d member => clean d (List.mem_reverse.mp member)) separator
    front.reverse
  rw [cutLast, turned, found]
  simp

end Pieces

/-! ### Lines -/

/-- The lines into which newlines within a line cut it. -/
abbrev cutLines (line : List Char) : List (List Char) := pieces (· = '\n') line

theorem cutLines_of_clean {line : List Char} (clean : '\n' ∉ line) : cutLines line = [line] :=
  pieces_of_clean fun c member => by
    rw [decide_eq_false_iff_not]
    rintro rfl
    exact clean member

/-- No line has a newline within it. -/
theorem newline_not_mem_cutLines {text line : List Char} (cut : line ∈ cutLines text) :
    '\n' ∉ line := fun member => by
  simpa using (mem_of_mem_pieces cut member).1

theorem cutLines_flatMap (written : List (List Char)) :
    cutLines (written.flatMap (· ++ ['\n'])) = written.flatMap cutLines ++ [[]] := by
  induction written with
  | nil => rfl
  | cons line rest ih =>
    rw [List.flatMap_cons, List.append_assoc, List.singleton_append, cutLines,
      pieces_append line (by simp), List.flatMap_cons, List.append_assoc]
    exact congrArg _ ih

/-- **The lines of a text that is written line by line**, each with a newline behind it. -/
theorem lines_flatMap (written : List (List Char)) :
    lines (written.flatMap (· ++ ['\n'])) = (written.flatMap cutLines).map dropReturn := by
  have parts := cutLines_flatMap written
  rw [cutLines] at parts
  simp only [lines, parts]
  simp

theorem newline_not_mem_dropReturn {line : List Char} (clean : '\n' ∉ line) :
    '\n' ∉ dropReturn line := by
  unfold dropReturn
  split
  · exact fun member => clean (List.dropLast_subset line member)
  · exact clean

/-- The lines of a text have no newline. -/
theorem newline_not_mem_lines {text line : List Char} (member : line ∈ lines text) :
    '\n' ∉ line := by
  unfold lines at member
  rcases List.mem_append.mp member with ended | last
  · obtain ⟨part, inside, rfl⟩ := List.mem_map.mp ended
    exact newline_not_mem_dropReturn (newline_not_mem_cutLines (List.dropLast_subset _ inside))
  · have inside := (List.mem_filter.mp last).1
    exact newline_not_mem_cutLines (List.mem_of_getLast? (Option.mem_toList.mp inside))

/-! ### Trimming -/

/-- A character stays if anything behind it stays, and else if it is no blank. -/
theorem trimEnd_cons (c : Char) (rest : List Char) :
    trimEnd (c :: rest) =
      if trimEnd rest = [] then (if isBlank c then [] else [c]) else c :: trimEnd rest := by
  unfold trimEnd
  rw [List.reverse_cons, List.dropWhile_append]
  by_cases gone : rest.reverse.dropWhile isBlank = []
  · by_cases blank : isBlank c = true <;> simp [gone, blank]
  · simp [gone]

theorem trimEnd_cons_of_solid {c : Char} (rest : List Char) (solid : isBlank c = false) :
    trimEnd (c :: rest) = c :: trimEnd rest := by
  rw [trimEnd_cons, solid]
  split
  · rename_i gone
    rw [gone]
    rfl
  · rfl

/-- A text that ends in a character that is no blank is not trimmed. -/
theorem trimEnd_concat (front : List Char) {c : Char} (solid : isBlank c = false) :
    trimEnd (front ++ [c]) = front ++ [c] :=
  trimEnd_append_of_not_blank front solid

theorem trimEnd_append {front back : List Char} (solid : trimEnd back ≠ []) :
    trimEnd (front ++ back) = front ++ trimEnd back := by
  induction front with
  | nil => rfl
  | cons c rest ih =>
    have stays : rest ++ trimEnd back ≠ [] := by simp [solid]
    rw [List.cons_append, trimEnd_cons, ih, if_neg stays, List.cons_append]

theorem mem_of_mem_trimEnd {text : List Char} {c : Char} (member : c ∈ trimEnd text) : c ∈ text := by
  unfold trimEnd at member
  exact List.mem_reverse.mp ((List.dropWhile_subset _) (List.mem_reverse.mp member))

theorem mem_of_mem_trim {text : List Char} {c : Char} (member : c ∈ trim text) : c ∈ text :=
  (List.dropWhile_subset _) (mem_of_mem_trimEnd member)

theorem trimEnd_trimEnd (text : List Char) : trimEnd (trimEnd text) = trimEnd text := by
  induction text with
  | nil => rfl
  | cons c rest ih =>
    rw [trimEnd_cons]
    split
    · split
      · rfl
      · rename_i solid
        exact trimEnd_cons_of_solid [] (by simpa using solid)
    · rename_i stays
      rw [trimEnd_cons, ih, if_neg stays]

/-- The carriage return at the end of a line is trimmed with the blanks before it. -/
theorem trimEnd_dropReturn (line : List Char) : trimEnd (dropReturn line) = trimEnd line := by
  unfold dropReturn
  split
  · rename_i ended
    obtain ⟨front, rfl⟩ := List.getLast?_eq_some_iff.mp ended
    simp [trimEnd, isBlank]
  · rfl

theorem trim_space (text : List Char) : trim (' ' :: text) = trim text := by
  have blank : isBlank ' ' = true := by decide
  rw [trim, trimStart, List.dropWhile_cons_of_pos blank]
  rfl

/-- Trimming is done at once. -/
theorem trim_trim (text : List Char) : trim (trim text) = trim text := by
  have started : trimStart (trim text) = trim text := by
    unfold trim
    cases front : trimStart text with
    | nil => rfl
    | cons c rest =>
      have solid : isBlank c = false := by
        have head := List.head?_dropWhile_not isBlank text
        rw [show text.dropWhile isBlank = c :: rest from front] at head
        simpa using head
      rw [trimEnd_cons_of_solid rest solid, trimStart_cons_of_not_blank _ solid]
  rw [trim, started, trim, trimEnd_trimEnd]

/-- A trimmed text has no blank at its end. -/
theorem trimEnd_of_trim {text : List Char} (trimmed : trim text = text) : trimEnd text = text := by
  rw [← trimmed, trim, trimEnd_trimEnd]

/-! ### Decimal numbers -/

namespace Decimal

/-- A decimal digit is a printable character: no blank, no newline, and none of a given few. -/
theorem isDigit_of_mem_digits {number : Nat} {c : Char} (member : c ∈ digits number) :
    c.isDigit = true :=
  Nat.isDigit_of_mem_toDigits (by decide) (by decide) member

theorem not_isBlank_of_isDigit {c : Char} (digit : c.isDigit = true) : isBlank c = false := by
  rw [Char.isDigit_iff_toNat] at digit
  simp only [isBlank, Bool.or_eq_false_iff, Bool.and_eq_false_iff, decide_eq_false_iff_not,
    beq_eq_false_iff_ne]
  simp only [Char.reduceToNat] at digit
  omega

theorem digits_ne_nil (number : Nat) : digits number ≠ [] :=
  Nat.toDigits_ne_nil

theorem digit?_digitChar : ∀ {digit : Nat}, digit < 10 → digit? digit.digitChar = some digit := by
  decide

theorem appendDigit?_digitChar {total digit : Nat} (small : digit < 10)
    (fits : total * 10 + digit ≤ wordMax) :
    appendDigit? total digit.digitChar = some (total * 10 + digit) := by
  simp [appendDigit?, digit?_digitChar small, fits]

/-- Reading digit by digit, a number that fits is read from its digits. -/
theorem foldlM_digits {number : Nat} (fits : number ≤ wordMax) :
    (digits number).foldlM appendDigit? 0 = some number := by
  unfold digits
  induction number using Nat.base_induction 10 (by decide) with
  | single digit small =>
    rw [Nat.toDigits_of_lt_base small, List.foldlM_cons, appendDigit?_digitChar small (by omega)]
    simp
  | digit rest digit small positive ih =>
    rw [← Nat.toDigits_append_toDigits (by decide) positive small, List.foldlM_append,
      ih (by omega), Nat.toDigits_of_lt_base small]
    simp only [Option.bind_eq_bind, Option.bind_some, List.foldlM_cons, List.foldlM_nil]
    rw [appendDigit?_digitChar small (by omega)]
    simp
    omega

theorem word?_digits {number : Nat} (fits : number ≤ wordMax) :
    word? (digits number) = some number := by
  have solid : (digits number).isEmpty = false := by simpa using digits_ne_nil number
  rw [word?, solid]
  exact foldlM_digits fits

/-- **A number within 64 bits is read back from its digits.** -/
theorem unsignedWord?_digits {number : Nat} (fits : number ≤ wordMax) :
    unsignedWord? (digits number) = some number := by
  have plain : unsignedWord? (digits number) = word? (digits number) := by
    unfold unsignedWord?
    split
    · rename_i rest same
      have inside : '+' ∈ digits number := by simp [same]
      have plus : '+'.isDigit = true := isDigit_of_mem_digits inside
      cases plus
    · rfl
  rw [plain, word?_digits fits]

theorem appendDigit?_le {total next : Nat} {c : Char}
    (read : appendDigit? total c = some next) : next ≤ wordMax := by
  obtain ⟨digit, -, read⟩ := Option.bind_eq_some_iff.mp read
  dsimp only at read
  split at read
  · cases read
    assumption
  · cases read

theorem foldlM_appendDigit?_le {text : List Char} {total number : Nat} (fits : total ≤ wordMax)
    (read : text.foldlM appendDigit? total = some number) : number ≤ wordMax := by
  induction text generalizing total with
  | nil =>
    cases read
    exact fits
  | cons c rest ih =>
    rw [List.foldlM_cons] at read
    obtain ⟨next, first, later⟩ := Option.bind_eq_some_iff.mp read
    exact ih (appendDigit?_le first) later

/-- **A number that is read fits in 64 bits.** -/
theorem unsignedWord?_le {text : List Char} {number : Nat}
    (read : unsignedWord? text = some number) : number ≤ wordMax := by
  have word {digits : List Char} (read : word? digits = some number) :
      number ≤ wordMax := by
    unfold word? at read
    split at read
    · cases read
    · exact foldlM_appendDigit?_le (Nat.zero_le _) read
  unfold unsignedWord? at read
  split at read <;> exact word read

end Decimal

end Localization.Text

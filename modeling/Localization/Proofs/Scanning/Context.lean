import Localization.Proofs.Nugget.Splicing
import Localization.Proofs.Scanning.Exact
import Mathlib.Data.List.Forall2
import Mathlib.Data.List.TakeWhile

/-
**The lines of nuggets, and the lines that a scan cites, are the same lines.**

* `Text.lineNumber_eq` — the line of an offset, from the bytes in front of it.
* `LineCounter.linesAt_start` — a counter tells the lines of any offsets, one after the other.
* `Text.lineAround_byteLength` — the text around an offset is the line of that number.
* `Markup.begins_of_mem_spans` — a nugget starts where an opening token stands.
* `SourceScanner.scanText_lines` — the lines and the contexts of the nuggets and mistakes of a source.
-/

namespace Localization

open Text

/-! ### Lines of bytes -/

namespace Text

/-- A byte is a newline only if it is the byte of one. -/
theorem newline_mem_utf8EncodeChar {c : Char} : 10 ∈ String.utf8EncodeChar c ↔ c = '\n' := by
  constructor
  · intro member
    unfold String.utf8EncodeChar at member
    simp only at member
    -- One byte is the character itself; where there are more, all of them are above 127.
    split at member
    · rename_i small
      simp [← UInt8.toNat_inj] at member
      have number : c.toNat = 10 := (Nat.mod_eq_of_lt (Nat.lt_of_le_of_lt small (by decide))).symm.trans
        member.symm
      exact Char.toNat_inj.mp number
    · split at member
      · simp [← UInt8.toNat_inj] at member
        omega
      · split at member <;>
        · simp [← UInt8.toNat_inj] at member
          omega
  · rintro rfl
    decide

/-- As soon as the first byte of a character is passed, so is the newline in it, if there is one. -/
theorem count_take_utf8EncodeChar {target : Nat} (positive : 0 < target) (c : Char) :
    ((String.utf8EncodeChar c).take target).count 10 = if c = '\n' then 1 else 0 := by
  split
  · rename_i newline
    subst newline
    rw [List.take_of_length_le]
    · decide
    · rw [String.length_utf8EncodeChar]
      exact positive
  · rename_i other
    exact List.count_eq_zero.mpr fun member =>
      other (newline_mem_utf8EncodeChar.mp (List.mem_of_mem_take member))

/-- **The line of an offset, from the bytes in front of it.** -/
theorem lineNumber_eq (text : List Char) (target : Nat) :
    lineNumber text target =
      1 + ((bytes text).take (min target (bytes text).length)).count 10 := by
  rw [lineNumber, ← List.take_eq_take_min]
  congr 1
  induction text generalizing target with
  | nil => simp [splitBytes, bytes]
  | cons c rest ih =>
    rcases Nat.eq_zero_or_pos target with rfl | positive
    · simp [splitBytes_zero]
    · have first : bytes (c :: rest) = String.utf8EncodeChar c ++ bytes rest := rfl
      rw [splitBytes_cons positive, List.count_cons, ih, first, List.take_append, List.count_append,
        count_take_utf8EncodeChar positive, String.length_utf8EncodeChar, Nat.add_comm]
      simp

end Text

namespace LineCounter

variable {text : List Char} {counter : LineCounter}

/-- The lines of offsets for which a counter is asked one after the other. -/
def linesAt (counter : LineCounter) : List Nat → List Nat
  | [] => []
  | target :: rest => (counter.lineAt target).1 :: (counter.lineAt target).2.linesAt rest

theorem Counts.linesAt (counts : Counts text counter) (targets : List Nat) :
    counter.linesAt targets = targets.map (lineNumber text) := by
  induction targets generalizing counter with
  | nil => rfl
  | cons target rest ih =>
    obtain ⟨line, further⟩ := counts.lineAt target
    rw [LineCounter.linesAt, line, ih further, List.map_cons]

/-- **A counter tells the lines of any offsets**, in whatever order it is asked for them. -/
theorem linesAt_start (text : List Char) (targets : List Nat) :
    (start text).linesAt targets = targets.map fun target =>
      1 + ((bytes text).take (min target (bytes text).length)).count 10 := by
  rw [(counts_start text).linesAt, funext (lineNumber_eq text)]

end LineCounter

/-! ### The line around an offset -/

namespace Text

theorem length_pieces (separates : Char → Bool) (text : List Char) :
    (pieces separates text).length = text.countP separates + 1 := by
  induction text with
  | nil => rfl
  | cons c rest ih =>
    rw [pieces, List.countP_cons]
    split
    · rw [List.length_cons, ih]
    · cases parts : pieces separates rest with
      | nil => exact absurd parts (pieces_ne_nil separates rest)
      | cons first others =>
        rw [parts] at ih
        exact ih

/-- What stands behind the last newline of a text. -/
def lastLine (text : List Char) : List Char :=
  (text.reverse.takeWhile (· ≠ '\n')).reverse

/-- A text ends in its last line, and in front of that is a newline, or nothing. -/
theorem lastLine_split (text : List Char) :
    '\n' ∉ text ∧ lastLine text = text ∨ ∃ front, text = front ++ '\n' :: lastLine text := by
  have whole : (text.reverse.dropWhile (· ≠ '\n')).reverse ++ lastLine text = text := by
    rw [lastLine, ← List.reverse_append, List.takeWhile_append_dropWhile, List.reverse_reverse]
  cases earlier : text.reverse.dropWhile (· ≠ '\n') with
  | nil =>
    rw [earlier, List.reverse_nil, List.nil_append] at whole
    refine .inl ⟨fun member => ?_, whole⟩
    simpa using List.dropWhile_eq_nil_iff.mp earlier '\n' (List.mem_reverse.mpr member)
  | cons c others =>
    have newline : c = '\n' := by
      have head := List.head?_dropWhile_not (fun c : Char => decide (c ≠ '\n')) text.reverse
      rw [earlier] at head
      simpa using head
    subst newline
    rw [earlier, List.reverse_cons, List.append_assoc] at whole
    exact .inr ⟨others.reverse, whole.symm⟩

/-- **The line with the end of a part of a text is the one behind the newlines in it.** -/
theorem getElem?_cutLines (before after : List Char) :
    (cutLines (before ++ after))[before.count '\n']? =
      some (lastLine before ++ after.takeWhile (· ≠ '\n')) := by
  have clean : ∀ c ∈ lastLine before, decide (c ≠ '\n') = true := fun c member =>
    List.mem_takeWhile_imp (p := fun c : Char => decide (c ≠ '\n')) (List.mem_reverse.mp member)
  have head : (cutLines (lastLine before ++ after))[0]? =
      some (lastLine before ++ after.takeWhile (· ≠ '\n')) := by
    rw [cutLines, head_pieces, List.getElem?_cons_zero, ← List.takeWhile_append_of_pos clean]
    simp
  rcases lastLine_split before with ⟨single, same⟩ | ⟨front, split⟩
  · rw [same] at head ⊢
    rw [List.count_eq_zero.mpr single, head]
  · generalize lastLine before = last at clean head split ⊢
    subst split
    have passed : (front ++ '\n' :: last).count '\n' = (cutLines front).length := by
      have single : last.count '\n' = 0 :=
        List.count_eq_zero.mpr fun member => by simpa using clean '\n' member
      rw [cutLines, length_pieces, List.count_append, List.count_cons_self, single]
      rfl
    have cut : cutLines (front ++ '\n' :: last ++ after) = cutLines front ++ cutLines (last ++ after) := by
      rw [List.append_assoc, List.cons_append]
      exact pieces_append front (by simp) _
    rw [cut, passed, List.getElem?_append_right (Nat.le_refl _), Nat.sub_self, head]

/-- **The text around an offset is the line of that number**, trimmed. -/
theorem lineAround_byteLength (before after : List Char) :
    ∃ row, (cutLines (before ++ after))[before.count '\n']? = some row ∧
      lineAround (before ++ after) (byteLength before) = trim row := by
  refine ⟨_, getElem?_cutLines before after, ?_⟩
  rw [lineAround, splitBytes_byteLength]
  rfl

end Text

/-! ### Where nuggets start -/

namespace Markup

/-- An opening token stands in a text at an offset, behind a part of the text. -/
structure Begins (markup : Markup) (text before : List Char) (start : Nat) : Prop where
  opening : before ++ markup.opening <+: text
  offset : byteLength before = start

/-- **A nugget starts where an opening token stands**, in the part of the text that is read. -/
theorem begins_of_mem_spans (markup : Markup) (front back : List Char) :
    ∀ found ∈ markup.spans (byteLength front) (markup.found back),
      ∃ before, front <+: before ∧ markup.Begins (front ++ back) before found.2.start := by
  fun_induction markup.found back generalizing front with
  | case1 back missing =>
    intro found member
    cases member
  | case2 back gap capture rest step _ ih =>
    have source := first?_source step
    intro found member
    rw [spans] at member
    rcases List.mem_cons.mp member with rfl | later
    · refine ⟨front ++ gap, List.prefix_append _ _, ?_, byteLength_append _ _⟩
      rw [source, Capture.source]
      simp only [List.append_assoc, List.prefix_append_right_inj]
      exact List.prefix_append _ _
    · rw [← byteLength_append, ← byteLength_append] at later
      obtain ⟨before, further, begins⟩ := ih _ found later
      refine ⟨before, ?_, ?_⟩
      · exact ((List.prefix_append _ _).trans (List.prefix_append _ _)).trans further
      · have same : front ++ gap ++ capture.source markup ++ rest = front ++ back := by simp [source]
        rwa [same] at begins

/-- Nuggets stand one behind the other. -/
theorem pairwise_spans (markup : Markup) (front back : List Char) :
    ((markup.spans (byteLength front) (markup.found back)).map (·.2)).Pairwise fun first second =>
      first.stop ≤ second.start := by
  fun_induction markup.found back generalizing front with
  | case1 back missing => exact .nil
  | case2 back gap capture rest step _ ih =>
    rw [spans, ← byteLength_append, ← byteLength_append, List.map_cons]
    refine List.pairwise_cons.mpr ⟨fun span member => ?_, ih _⟩
    obtain ⟨found, later, rfl⟩ := List.mem_map.mp member
    obtain ⟨before, ⟨between, rfl⟩, begins⟩ := begins_of_mem_spans markup _ rest found later
    rw [← begins.offset, byteLength_append (front ++ gap ++ capture.source markup)]
    exact Nat.le_add_right _ _

theorem begins_of_mem_parse {markup : Markup} {purpose : Purpose} {text : String}
    {result : Except NuggetError Occurrence} (member : result ∈ markup.parse purpose text) :
    ∃ before, markup.Begins text.toList before (resultSpan result).start := by
  have span : resultSpan result ∈ markup.resultSpans purpose text := List.mem_map_of_mem member
  rw [resultSpans_eq] at span
  obtain ⟨found, inside, same⟩ := List.mem_map.mp span
  obtain ⟨before, -, begins⟩ := begins_of_mem_spans markup [] text.toList found inside
  exact ⟨before, same ▸ begins⟩

end Markup

/-! ### Lines and contexts -/

namespace SourceScanner

open Markup

variable {scanner : SourceScanner} {text : String}

/-- The nuggets without mistakes, in order. -/
def accepted (results : List (Except NuggetError Occurrence)) : List Occurrence :=
  results.filterMap (·.toOption)

/-- The mistakes, in order. -/
def mistakes (results : List (Except NuggetError Occurrence)) : List NuggetError :=
  results.filterMap fun
    | .ok _ => none
    | .error error => some error

theorem mem_accepted {results : List (Except NuggetError Occurrence)} {occurrence : Occurrence} :
    occurrence ∈ accepted results ↔ .ok occurrence ∈ results := by
  rw [accepted, List.mem_filterMap]
  constructor
  · rintro ⟨result, member, same⟩
    rwa [eq_ok_of_mem_toOption same] at member
  · exact fun member => ⟨_, member, rfl⟩

theorem mem_mistakes {results : List (Except NuggetError Occurrence)} {error : NuggetError} :
    error ∈ mistakes results ↔ .error error ∈ results := by
  rw [mistakes, List.mem_filterMap]
  constructor
  · rintro ⟨result, member, same⟩
    cases result with
    | error other =>
      cases same
      exact member
    | ok occurrence => cases same
  · exact fun member => ⟨_, member, rfl⟩

/-- A reference names the line of the opening token at an offset, which is one more than there are
newlines in front of the token. The line reads `row` in the source. -/
structure Cites (scanner : SourceScanner) (path : Path) (text : String) (start : Nat)
    (reference : Reference) (row : List Char) : Prop where
  path : reference.path = scanner.filter.reference path
  line : ∃ before, scanner.markup.Begins text.toList before start ∧
    reference.line = 1 + before.count '\n'
  row : (cutLines text.toList)[reference.line - 1]? = some row

/-- A mention of a nugget, with its line and, if it is asked for, that line of the source. -/
structure Mentions (scanner : SourceScanner) (path : Path) (text : String) (occurrence : Occurrence)
    (mention : Mention) : Prop where
  id : mention.id = occurrence.nugget.id
  comment : mention.comment = occurrence.nugget.comment
  place : ∃ row, scanner.Cites path text occurrence.span.start mention.reference row ∧
    mention.context = if scanner.showContext then
      some (mention.reference.text ++ ": " ++ String.ofList (trim row)) else none

/-- A warning of a mistake, with its line. -/
def Warns (scanner : SourceScanner) (path : Path) (text : String) (error : NuggetError)
    (warning : ScanWarning) : Prop :=
  ∃ reference row, scanner.Cites path text error.span.start reference row ∧
    warning = .malformed reference error

/-- **The line of a nugget is the line of the source that is cited for it.** -/
theorem cites_referenceOf (path : Path) {result : Except NuggetError Occurrence}
    (member : result ∈ scanner.markup.parse .source text) :
    ∃ row, scanner.Cites path text (resultSpan result).start
        (scanner.referenceOf path text (resultSpan result).start) row ∧
      lineAround text.toList (resultSpan result).start = trim row := by
  obtain ⟨before, begins⟩ := Markup.begins_of_mem_parse member
  obtain ⟨after, split⟩ := (List.prefix_append _ _).trans begins.opening
  obtain ⟨row, line, around⟩ := lineAround_byteLength before after
  have number : lineNumber text.toList (resultSpan result).start = 1 + before.count '\n' := by
    rw [← begins.offset, ← split, lineNumber, splitBytes_byteLength]
  rw [referenceOf, number]
  refine ⟨row, ⟨?_, ⟨before, begins, rfl⟩, ?_⟩, ?_⟩
  · dsimp only
  · rw [Nat.add_sub_cancel_left, ← split]
    exact line
  · rw [← begins.offset, ← split]
    exact around

theorem mentions_mentionOf (path : Path) {occurrence : Occurrence}
    (member : .ok occurrence ∈ scanner.markup.parse .source text) :
    scanner.Mentions path text occurrence (scanner.mentionOf path text occurrence) := by
  obtain ⟨row, cites, around⟩ := cites_referenceOf path member
  refine ⟨rfl, rfl, row, cites, ?_⟩
  rw [mentionOf, contextOf, ← around]
  rfl

theorem warns_warningOf (path : Path) {error : NuggetError}
    (member : .error error ∈ scanner.markup.parse .source text) :
    scanner.Warns path text error (scanner.warningOf path text error) := by
  obtain ⟨row, cites, -⟩ := cites_referenceOf path member
  exact ⟨_, row, cites, rfl⟩

theorem foldr_findingOf (scanner : SourceScanner) (path : Path) (text : String)
    (results : List (Except NuggetError Occurrence)) :
    (results.map (scanner.findingOf path text)).foldr Findings.append .none =
      ⟨(accepted results).map (scanner.mentionOf path text),
        (mistakes results).map (scanner.warningOf path text)⟩ := by
  induction results with
  | nil => rfl
  | cons result rest ih =>
    rw [List.map_cons, List.foldr_cons, ih]
    cases result <;> rfl

/-- **Line numbers and the lines that are cited agree.** Every nugget without mistakes gives one mention,
and every mistake one warning, in the order in which they stand in the source. Its line is one more than
there are newlines in front of its opening token, and the line that is cited is the one of that number,
trimmed. A counter tells the lines of any offsets, in whatever order it is asked for them. -/
theorem scanText_lines (scanner : SourceScanner) (path : Path) (text : String) :
    let results := scanner.markup.parse .source text
    List.Forall₂ (scanner.Mentions path text) (accepted results)
        (scanner.scanText path text).mentions ∧
      List.Forall₂ (scanner.Warns path text) (mistakes results)
        (scanner.scanText path text).warnings ∧
      ((results.map resultSpan).Pairwise fun first second => first.stop ≤ second.start) ∧
      ∀ source targets, (LineCounter.start source).linesAt targets = targets.map fun target =>
        1 + ((bytes source).take (min target (bytes source).length)).count 10 := by
  intro results
  rw [scanText_eq, foldr_findingOf]
  refine ⟨?_, ?_, ?_, LineCounter.linesAt_start⟩
  · rw [List.forall₂_map_right_iff, List.forall₂_same]
    exact fun occurrence member => mentions_mentionOf path (mem_accepted.mp member)
  · rw [List.forall₂_map_right_iff, List.forall₂_same]
    exact fun error member => warns_warningOf path (mem_mistakes.mp member)
  · have spans := resultSpans_eq scanner.markup .source text
    rw [resultSpans] at spans
    rw [spans]
    exact pairwise_spans scanner.markup [] text.toList

end SourceScanner

end Localization

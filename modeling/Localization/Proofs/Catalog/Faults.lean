import Localization.Proofs.Catalog.Blocks

/-
**A catalog file is read from its first line on.**

Whether a line is at fault depends on the lines above it, and not on those below. A blank line closes the
entry above it for good: more lines may replace an obsolete item, but neither a live one nor the header.

* `firstLines` — a text up to the end of one of its lines; `lines_firstLines`.
* `Entry.reads_eq_error_iff` — a fault is that of the first line that cannot be read behind those above it.
* `get?_ofEntries_append`, `header_ofEntries_append` — what more entries leave as it is.
* `parse_forward` — the fault of a file is settled by the lines up to it, and what a blank line closes stays.
-/

namespace Localization.Catalog

open Text

/-! ### The first lines of a text -/

/-- A text up to the end of its line `count`. -/
def firstLines (count : Nat) (text : String) : String :=
  String.ofList ((segments text.toList).take count).flatten

/-- A line without its line end. -/
def dropLineEnd (line : List Char) : List Char :=
  if line.getLast? = some '\n' then dropReturn line.dropLast else line

/-- The parts of a text after each newline are its lines with their line ends. -/
theorem segments_eq (text : List Char) :
    segments text = (cutLines text).dropLast.map (· ++ ['\n']) ++
      (cutLines text).getLast?.toList.filter (!·.isEmpty) := by
  induction text with
  | nil => rfl
  | cons c rest ih =>
    rw [segments, cutLines, pieces]
    by_cases newline : c = '\n'
    · rw [if_pos newline, if_pos (by simpa using newline), ih,
        List.dropLast_cons_of_ne_nil (pieces_ne_nil _ rest), List.getLast?_cons_of_ne_nil (pieces_ne_nil _ rest)]
      rfl
    · rw [if_neg newline, if_neg (by simpa using newline), ih, cutLines]
      cases parts : pieces (· = '\n') rest with
      | nil => exact absurd parts (pieces_ne_nil _ rest)
      | cons first others =>
        cases others with
        | nil => cases first <;> rfl
        | cons second more => rfl

/-- The lines of a text are its parts after each newline, without their line ends. -/
theorem lines_eq_map_segments (text : List Char) : Text.lines text = (segments text).map dropLineEnd := by
  have ended : (cutLines text).dropLast.map dropReturn =
      ((cutLines text).dropLast.map (· ++ ['\n'])).map dropLineEnd := by
    rw [List.map_map]
    refine List.map_congr_left fun line _ => ?_
    simp [dropLineEnd]
  have last : (cutLines text).getLast?.toList.filter (!·.isEmpty) =
      ((cutLines text).getLast?.toList.filter (!·.isEmpty)).map dropLineEnd := by
    refine (List.map_id _).symm.trans (List.map_congr_left fun line member => ?_)
    have inside := Option.mem_toList.mp (List.mem_of_mem_filter member)
    have clean : '\n' ∉ line := newline_not_mem_cutLines (List.mem_of_getLast? inside)
    exact (if_neg fun ends => clean (List.mem_of_getLast? ends)).symm
  rw [segments_eq, List.map_append, ← ended, ← last]
  rfl

theorem segments_take (count : Nat) (text : List Char) :
    segments ((segments text).take count).flatten = (segments text).take count := by
  induction text generalizing count with
  | nil => simp [segments]
  | cons c rest ih =>
    cases count with
    | zero => rfl
    | succ count =>
      rw [segments]
      by_cases newline : c = '\n'
      · rw [if_pos newline, List.take_succ_cons, List.flatten_cons, List.singleton_append, segments,
          if_pos rfl, ih]
      · have later := ih (count + 1)
        rw [if_neg newline]
        cases parts : segments rest with
        | nil => simp [segments, newline]
        | cons first others =>
          rw [parts, List.take_succ_cons, List.flatten_cons] at later
          dsimp only
          rw [List.take_succ_cons, List.flatten_cons, List.cons_append, segments, if_neg newline, later]

/-- The lines of a text up to the end of one of its lines. -/
theorem lines_firstLines (count : Nat) (text : String) :
    Text.lines (firstLines count text).toList = (Text.lines text.toList).take count := by
  rw [firstLines, String.toList_ofList, lines_eq_map_segments, segments_take, lines_eq_map_segments,
    List.map_take]

/-! ### Faults -/

/-- **A fault is that of the first line that cannot be read** behind the lines above it. -/
theorem Entry.reads_eq_error_iff {entry : Entry} {number : Nat} {lines : List (List Char)}
    {error : ParseError} :
    entry.reads number lines = .error error ↔
      ∃ front line back closed next, lines = front ++ line :: back ∧ entry.Reads front closed next ∧
        (Line.ofChars line).bind next.read = .error error.fault ∧
          error.line = number + front.length := by
  constructor
  · intro failed
    induction lines generalizing entry number with
    | nil => cases failed
    | cons line rest ih =>
      rw [Entry.reads] at failed
      cases taken : (Line.ofChars line).bind entry.read with
      | error fault =>
        rw [taken] at failed
        cases failed
        exact ⟨[], line, rest, [], entry, rfl, .nil entry, taken, rfl⟩
      | ok pair =>
        obtain ⟨first, after⟩ := pair
        have one : entry.Reads [line] first after := fun number => by
          simp [Entry.reads, taken, Except.map]
        rw [taken] at failed
        cases later : after.reads (number + 1) rest with
        | ok last => simp [later, Except.map] at failed
        | error found =>
          simp only [later, Except.map, Except.error.injEq] at failed
          subst failed
          obtain ⟨front, bad, back, closed, next, rfl, read, fault, place⟩ := ih later
          refine ⟨line :: front, bad, back, first ++ closed, next, rfl, one.append read, fault, ?_⟩
          rw [place, List.length_cons]
          omega
  · rintro ⟨front, line, back, closed, next, rfl, read, fault, place⟩
    have stops : next.reads (number + front.length) (line :: back) = .error error := by
      rw [Entry.reads, fault, ← place]
    rw [Entry.reads_append, read number]
    simp only [Except.bind, stops]
    rfl

variable {text : String} {error : ParseError} {catalog : Catalog}

theorem parse_eq_error_iff :
    parse text = .error error ↔
      ∃ front line back closed next, Text.lines text.toList = front ++ line :: back ∧
        Entry.start.Reads front closed next ∧
        (Line.ofChars line).bind next.read = .error error.fault ∧ error.line = 1 + front.length := by
  rw [← Entry.reads_eq_error_iff, parse, parseLines_eq]
  cases found : Entry.start.reads 1 (Text.lines text.toList) with
  | error fault => simp [Except.map]
  | ok pair => simp [Except.map]

/-! ### More entries -/

/-- **A live item stays** when there are more entries behind its own. -/
theorem get?_ofEntries_append {entries : List Entry} {id : String} {item : Item}
    (found : (ofEntries entries).items.get? id = some item) (live : item.obsolete = false)
    (more : List Entry) : (ofEntries (entries ++ more)).items.get? id = some item := by
  have known : ((entries.filterMap (·.item?)).foldl addItem .empty).get? id = some item := found
  rw [ofEntries, List.filterMap_append, List.foldl_append, get?_foldl_addItem, known]
  simp [live]

/-- **The header stays** when there are more entries behind its own. -/
theorem header_ofEntries_append {entries : List Entry} {entry : Entry} (member : entry ∈ entries)
    (header : entry.isHeader = true) (more : List Entry) :
    (ofEntries (entries ++ more)).header = (ofEntries entries).header := by
  obtain ⟨first, found⟩ := Option.isSome_iff_exists.mp (List.find?_isSome.mpr ⟨entry, member, header⟩)
  rw [ofEntries, ofEntries, List.find?_append, found]
  rfl

/-! ### Files -/

/-- One of the blocks of a text is that of a header: it names the empty id on a live line. -/
def HasHeader (text : String) : Prop :=
  ∃ block ∈ blocks text, Names "" block ∧ block.any (·.isObsolete) = false

instance : DecidablePred HasHeader := fun text =>
  inferInstanceAs (Decidable (∃ block ∈ blocks text, Names "" block ∧ block.any (·.isObsolete) = false))

/-- Entries that some blocks describe have that of a header among them if a block is one. -/
theorem exists_isHeader {all : List (List Line)} {entries : List Entry}
    (describe : List.Forall₂ Describes all entries) {block : List Line} (member : block ∈ all)
    (names : Names "" block) (live : block.any (·.isObsolete) = false) :
    ∃ entry ∈ entries, entry.isHeader = true := by
  induction describe with
  | nil => cases member
  | cons describes _ ih =>
    rcases List.mem_cons.mp member with rfl | later
    · refine ⟨_, List.mem_cons_self, ?_⟩
      rw [Entry.isHeader, describes.id, describes.obsolete, live, names]
      rfl
    · obtain ⟨entry, inside, header⟩ := ih later
      exact ⟨entry, List.mem_cons_of_mem _ inside, header⟩

/-- A text whose lines can be read is the catalog of its entries. -/
theorem parse_of_reads {closed : List Entry} {last : Entry}
    (read : Entry.start.Reads (Text.lines text.toList) closed last) :
    parse text = .ok (ofEntries (closed ++ [last])) :=
  read.parseLines_eq

/-- **A file is read from its first line on.** A fault is that of one of its lines: the lines above it can
be read, and every text that has the same lines up to it has the same fault. A text without a fault has
none up to any of its lines; and if a blank line follows, the live items that have been read up to there
and the header, if there is one, are those of the whole text. -/
theorem parse_forward (text : String) :
    (∀ error, parse text = .error error →
      1 ≤ error.line ∧ error.line ≤ (Text.lines text.toList).length ∧
        (∃ early, parse (firstLines (error.line - 1) text) = .ok early) ∧
        ∀ other : String,
          (Text.lines other.toList).take error.line = (Text.lines text.toList).take error.line →
            parse other = .error error) ∧
    ∀ catalog, parse text = .ok catalog → ∀ count, ∃ early,
      parse (firstLines count text) = .ok early ∧
        ∀ line, (Text.lines text.toList)[count]? = some line → trimEnd line = [] →
          (∀ id item, early.items.get? id = some item → item.obsolete = false →
            catalog.items.get? id = some item) ∧
          (HasHeader (firstLines count text) → catalog.header = early.header) := by
  constructor
  · intro error failed
    obtain ⟨front, line, back, closed, next, split, read, fault, place⟩ := parse_eq_error_iff.mp failed
    have above : (Text.lines text.toList).take (error.line - 1) = front := by
      rw [split, place, Nat.add_sub_cancel_left, List.take_left]
    have upTo : (Text.lines text.toList).take error.line = front ++ [line] := by
      rw [split, place, Nat.add_comm, List.append_cons, List.take_left' (by simp)]
    refine ⟨by omega, ?_, ?_, fun other same => ?_⟩
    · rw [split, List.length_append, List.length_cons]
      omega
    · rw [← above, ← lines_firstLines] at read
      exact ⟨_, parse_of_reads read⟩
    · refine parse_eq_error_iff.mpr ⟨front, line, (Text.lines other.toList).drop error.line, closed, next, ?_,
        read, fault, place⟩
      rw [List.append_cons, ← upTo, ← same, List.take_append_drop]
  · intro catalog parsed count
    obtain ⟨whole, final, all, rfl⟩ := reads_of_parseLines parsed
    rw [← List.take_append_drop count (Text.lines text.toList)] at all
    obtain ⟨closed, last, others, read, later, rfl⟩ := all.of_append
    rw [← lines_firstLines] at read
    refine ⟨_, parse_of_reads read, fun line here blank => ?_⟩
    -- The blank line closes the entry that is open, so that the entries read so far are the first ones.
    rw [List.drop_eq_getElem?_toList_append, here, Option.toList_some] at later
    obtain ⟨ended, opened, more, closing, further, rfl⟩ := later.of_append
    obtain ⟨words, said, taken⟩ := closing.of_single
    rw [Line.ofChars, blank] at said
    cases said
    cases taken
    have entries : closed ++ ([last] ++ more) ++ [final] = (closed ++ [last]) ++ (more ++ [final]) := by simp
    rw [entries]
    refine ⟨fun id item found live => get?_ofEntries_append found live _, ?_⟩
    rintro ⟨block, member, names, live⟩
    obtain ⟨entry, inside, header⟩ := exists_isHeader (describes_start.reads read) member names live
    exact header_ofEntries_append inside header _

/-- A text with an escape on its second line that no string has. -/
def faultyText : String := "msgid \"cat\"\nmsgstr \"\\q\"\n\nmsgid \"dog\"\n"

/-- The fault on that line. -/
def escapeError : ParseError := ⟨2, .quoting (.unknownEscape 'q')⟩

/-- A text with a header and a live item in front of a blank line, and others of the same ids behind it. -/
def continuedText : String :=
  "msgid \"\"\nmsgstr \"\"\nmsgid \"cat\"\nmsgstr \"chat\"\n\nmsgid \"cat\"\nmsgstr \"minou\"\n# x\nmsgid \"\"\n"

/-- The fault of the first text does not depend on what follows its line, and of the second one the header
and the live item in front of the blank line stay. -/
theorem parse_forward_samples :
    (parse faultyText = .error escapeError ∧ (∃ early, parse (firstLines 1 faultyText) = .ok early) ∧
      parse "msgid \"cat\"\r\nmsgstr \"\\q\"" = .error escapeError) ∧
    ∃ whole early, parse continuedText = .ok whole ∧ parse (firstLines 4 continuedText) = .ok early ∧
      (Text.lines continuedText.toList)[4]? = some [] ∧ HasHeader (firstLines 4 continuedText) ∧
      whole.header = early.header ∧
      early.items.get? "cat" = some { Item.ofId "cat" with localized := some "chat" } ∧
      whole.items.get? "cat" = some { Item.ofId "cat" with localized := some "chat" } := by
  constructor
  · have failed : parse faultyText = .error escapeError := by decide +kernel
    obtain ⟨-, -, above, same⟩ := (parse_forward faultyText).1 _ failed
    exact ⟨failed, above, same _ (by decide +kernel)⟩
  · obtain ⟨whole, parsed, -⟩ :=
      exists_of_any_toOption (parse continuedText) (fun _ => true) (by decide +kernel)
    obtain ⟨early, read, cat⟩ := exists_of_any_toOption (parse (firstLines 4 continuedText))
      (fun early => early.items.get? "cat" = some { Item.ofId "cat" with localized := some "chat" })
      (by decide +kernel)
    have blank : (Text.lines continuedText.toList)[4]? = some [] := by decide +kernel
    have headed : HasHeader (firstLines 4 continuedText) := by decide +kernel
    obtain ⟨_, again, stays⟩ := (parse_forward continuedText).2 whole parsed 4
    obtain rfl := Except.ok.inj (read.symm.trans again)
    obtain ⟨live, header⟩ := stays [] blank rfl
    have known := of_decide_eq_true cat
    exact ⟨whole, early, parsed, read, blank, headed, header headed, known, live _ _ known rfl⟩

end Localization.Catalog

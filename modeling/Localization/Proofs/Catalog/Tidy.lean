import Localization.Proofs.Catalog.Resaving
import Localization.Proofs.Catalog.RoundTrip

/-
**What is read of a file is tidy.**

Comments come without the blanks at the end of their lines, and the fields of a header without those
around their names and values. So they are written as they are, and read back unchanged.

* `Reads.forall_entries` — what every line keeps of an entry holds of all entries of a file.
* `TidyHeader`, `Tidy` — headers and catalogs as they are read; `tidyHeader_of_parse`, `tidy_of_parse`.
* `Legible.tidy_reread` — what is read of a written catalog is tidy again.
-/

namespace Localization

open Text

namespace Catalog

/-! ### Trimmed comments -/

/-- A comment that has no blank at its end. -/
def Comment.Trimmed : Comment → Prop
  | .extracted text => trimEnd text = text
  | .translator text => trimEnd text = text
  | _ => True

theorem trimEnd_of_cons {c : Char} {rest : List Char} (trimmed : trimEnd (c :: rest) = c :: rest) :
    trimEnd rest = rest := by
  rw [trimEnd_cons] at trimmed
  split at trimmed
  · rename_i gone
    split at trimmed
    · cases trimmed
    · rw [gone, (List.cons.inj trimmed).2]
  · exact (List.cons.inj trimmed).2

/-- What a trimmed line says has no blank at its end. -/
theorem Comment.trimmed_ofChars {text : List Char} (trimmed : trimEnd text = text) :
    (Comment.ofChars text).Trimmed := by
  unfold Comment.ofChars
  split
  · exact trimEnd_of_cons (trimEnd_of_cons (trimEnd_of_cons trimmed))
  · exact trimEnd_of_cons (trimEnd_of_cons trimmed)
  · trivial
  · trivial
  · rfl
  · exact trimEnd_of_cons (trimEnd_of_cons trimmed)
  · trivial

theorem Line.trimmed_ofChars {line : List Char} {comment : Comment}
    (said : Line.ofChars line = .ok (.comment comment)) : comment.Trimmed := by
  unfold Line.ofChars at said
  dsimp only at said
  split at said
  · cases said
  · split at said
    · cases (Line.ofContent_eq_comment said).1
    · rw [(Line.ofContent_eq_comment said).2]
      exact Comment.trimmed_ofChars (trimEnd_trimEnd line)

namespace Entry

/-- **What every line keeps of an entry holds of all entries** that the lines are read as. -/
theorem Reads.forall_entries {P : Entry → Prop} {lines : List (List Char)}
    (step : ∀ line ∈ lines, ∀ {entry words closed next}, P entry → Line.ofChars line = .ok words →
      entry.read words = .ok (closed, next) → (∀ other ∈ closed, P other) ∧ P next)
    {entry last : Entry} {closed : List Entry} (first : P entry)
    (all : entry.Reads lines closed last) : ∀ other ∈ closed ++ [last], P other := by
  induction lines generalizing entry closed with
  | nil =>
    obtain ⟨rfl, rfl⟩ := all.unique (Reads.nil entry)
    exact List.forall_mem_singleton.mpr first
  | cons line rest ih =>
    rw [← List.singleton_append] at all
    obtain ⟨early, next, others, here, later, rfl⟩ := all.of_append
    obtain ⟨words, said, taken⟩ := here.of_single
    obtain ⟨before, after⟩ := step line List.mem_cons_self first said taken
    have below := ih (fun other member => step other (List.mem_cons_of_mem line member)) after later
    intro other member
    rw [List.append_assoc] at member
    rcases List.mem_append.mp member with inside | outside
    · exact before other inside
    · exact below other outside

/-- The comments of an entry have no blanks at their ends. -/
structure Trimmed (entry : Entry) : Prop where
  comments : ∀ comment ∈ entry.comments, trimEnd comment.toList = comment.toList
  extracted : ∀ comment ∈ entry.extracted, trimEnd comment.toList = comment.toList

namespace Trimmed

variable {entry : Entry}

theorem start : Entry.start.Trimmed := ⟨List.forall_mem_nil _, List.forall_mem_nil _⟩

theorem addComment (trimmed : entry.Trimmed) {comment : Comment} (good : comment.Trimmed) :
    (entry.addComment comment).Trimmed := by
  have ends {comments : List String} {text : List Char} (text_trimmed : trimEnd text = text)
      (all : ∀ comment ∈ comments, trimEnd comment.toList = comment.toList) :
      ∀ comment ∈ comments ++ [String.ofList text], trimEnd comment.toList = comment.toList := by
    intro comment member
    rcases List.mem_append.mp member with before | last
    · exact all comment before
    · rw [List.mem_singleton.mp last, String.toList_ofList]
      exact text_trimmed
  cases comment with
  | extracted text => exact { trimmed with extracted := ends good trimmed.extracted }
  | translator text => exact { trimmed with comments := ends good trimmed.comments }
  | references places => exact { trimmed with }
  | flags fuzzy others => exact { trimmed with }
  | dropped => exact trimmed

theorem setString (trimmed : entry.Trimmed) (keyword : Keyword) (text : String) :
    (entry.setString keyword text).Trimmed := by
  cases keyword <;> exact { trimmed with }

theorem extendString (trimmed : entry.Trimmed) (keyword : Keyword) (text : String) :
    (entry.extendString keyword text).Trimmed := by
  cases keyword <;> exact { trimmed with }

theorem closing (trimmed : entry.Trimmed) (condition : Bool) :
    (∀ closed ∈ (entry.closing condition).1, closed.Trimmed) ∧
      (entry.closing condition).2.Trimmed := by
  cases condition with
  | false => exact ⟨List.forall_mem_nil _, trimmed⟩
  | true => exact ⟨List.forall_mem_singleton.mpr trimmed, start⟩

theorem read (trimmed : entry.Trimmed) {line : List Char} {words : Line}
    (said : Line.ofChars line = .ok words) {closed : List Entry} {next : Entry}
    (taken : entry.read words = .ok (closed, next)) :
    (∀ other ∈ closed, other.Trimmed) ∧ next.Trimmed := by
  cases words with
  | blank =>
    cases taken
    exact ⟨List.forall_mem_singleton.mpr trimmed, start⟩
  | skipped =>
    cases taken
    exact ⟨List.forall_mem_nil _, trimmed⟩
  | comment comment =>
    have parts := trimmed.closing entry.hasKeywords
    cases taken
    exact ⟨parts.1, parts.2.addComment (Line.trimmed_ofChars said)⟩
  | more text =>
    cases current : entry.current with
    | none =>
      rw [Entry.read, current] at taken
      cases taken
    | some keyword =>
      rw [Entry.read, current] at taken
      cases taken
      exact ⟨List.forall_mem_nil _, trimmed.extendString keyword text⟩
  | keyword obsolete keyword text =>
    have parts := trimmed.closing (Reader.startsEntry keyword && entry.id.isSome)
    cases taken
    have marked : ((entry.closing (Reader.startsEntry keyword && entry.id.isSome)).2.marked
        obsolete).Trimmed := { parts.2 with }
    exact ⟨parts.1, marked.setString keyword text⟩

end Trimmed

end Entry

/-! ### Fields of lines -/

theorem trimmed_ofList_trim (text : List Char) :
    trim (String.ofList (trim text)).toList = (String.ofList (trim text)).toList := by
  rw [String.toList_ofList, trim_trim]

/-- The field on a line has neither blanks at its ends nor newlines. -/
theorem isField_of_field? {line : List Char} (clean : '\n' ∉ line) {field : String × String}
    (read : Header.field? line = some field) : IsField field := by
  unfold Header.field? at read
  cases parts : cut (· = ':') line with
  | none =>
    rw [parts] at read
    cases read
  | some pair =>
    obtain ⟨name, value⟩ := pair
    rw [parts] at read
    simp only [Option.bind_eq_bind, Option.bind_some] at read
    obtain ⟨c, -, plain, rfl⟩ := cut_eq_some parts
    split at read
    · cases read
    · rename_i solid
      cases read
      refine
        { solid := fun empty => solid ?_
          trimmedName := trimmed_ofList_trim name
          colon := fun member => ?_
          newlineName := fun member => ?_
          trimmedValue := trimmed_ofList_trim value
          newlineValue := fun member => ?_ }
      · have gone : String.ofList (trim name) = "" := empty
        rw [List.isEmpty_iff, ← String.toList_ofList (l := trim name), gone]
        rfl
      · rw [String.toList_ofList] at member
        exact absurd (plain ':' (mem_of_mem_trim member)) (by simp)
      · rw [String.toList_ofList] at member
        exact clean (List.mem_append_left _ (mem_of_mem_trim member))
      · rw [String.toList_ofList] at member
        exact clean (List.mem_append_right _ (List.mem_cons_of_mem c (mem_of_mem_trim member)))

theorem isField_of_mem_filterMap {lines : List (List Char)} (clean : ∀ line ∈ lines, '\n' ∉ line) :
    ∀ field ∈ lines.filterMap Header.field?, IsField field := by
  intro field member
  obtain ⟨line, inside, read⟩ := List.mem_filterMap.mp member
  exact isField_of_field? (clean line inside) read

/-! ### Tidy catalogs -/

/-- A header whose comments and fields are as they are read. -/
structure TidyHeader (header : Header) : Prop where
  comments : ∀ comment ∈ header.comments, IsComment comment
  fields : ∀ field ∈ header.fields, IsField field

theorem tidyHeader_empty : TidyHeader .empty := ⟨List.forall_mem_nil _, List.forall_mem_nil _⟩

theorem TidyHeader.newline {header : Header} (tidy : TidyHeader header) :
    ∀ comment ∈ header.comments, '\n' ∉ comment.toList :=
  fun comment member => (tidy.comments comment member).newline

theorem TidyHeader.newline_standard {header : Header} (tidy : TidyHeader header)
    (culture : Option String) :
    ∀ comment ∈ (Header.standard culture header).comments, '\n' ∉ comment.toList := tidy.newline

/-- An item that can be read back, with its comments as they are read. -/
structure TidyItem (item : Item) : Prop where
  legible : LegibleItem item
  comments : ∀ comment ∈ item.comments, IsComment comment
  extracted : ∀ comment ∈ item.extracted, IsComment comment

/-- A catalog as it is read. -/
structure Tidy (catalog : Catalog) : Prop where
  keyed : catalog.items.Keyed
  header : TidyHeader catalog.header
  items : ∀ item ∈ catalog.items.values, TidyItem item

theorem tidy_empty : Catalog.empty.Tidy where
  keyed _ _ found := nomatch found
  header := tidyHeader_empty
  items := List.forall_mem_nil _

/-- The entries of a file are clean and trimmed. -/
theorem tidyEntries_of_parse {text : String} {catalog : Catalog} (parsed : parse text = .ok catalog) :
    ∃ entries : List Entry, catalog = ofEntries entries ∧
      ∀ entry ∈ entries, entry.Clean (text.toList.length + 1) ∧ entry.Trimmed := by
  obtain ⟨closed, last, all, same⟩ := reads_of_parseLines parsed
  refine ⟨closed ++ [last], same, fun entry member => ⟨?_, ?_⟩⟩
  · have clean := (Entry.Clean.start 0).reads (fun line => newline_not_mem_lines) all entry member
    rw [Nat.zero_add] at clean
    exact clean.mono (lines_length text.toList)
  · exact all.forall_entries (P := Entry.Trimmed) (fun line _ _ _ _ _ trimmed said taken =>
      trimmed.read said taken) Entry.Trimmed.start entry member

/-- **The header of any file is tidy.** -/
theorem tidyHeader_of_parse {text : String} {catalog : Catalog} (parsed : parse text = .ok catalog) :
    TidyHeader catalog.header := by
  obtain ⟨entries, rfl, all⟩ := tidyEntries_of_parse parsed
  unfold ofEntries
  cases first : entries.find? (·.isHeader) with
  | none => exact tidyHeader_empty
  | some entry =>
    obtain ⟨clean, trimmed⟩ := all entry (List.mem_of_find?_eq_some first)
    refine ⟨fun comment member => ⟨clean.comments comment member, trimmed.comments comment member⟩, ?_⟩
    exact isField_of_mem_filterMap fun line inside => newline_not_mem_cutLines inside

/-- **What is read of any file is tidy**, if it has not too many plural forms for their indexes. -/
theorem tidy_of_parse {text : String} {catalog : Catalog} (parsed : parse text = .ok catalog)
    (forms : ∀ item ∈ catalog.items.values, item.forms.length ≤ Decimal.wordMax + 1) :
    catalog.Tidy := by
  have header := tidyHeader_of_parse parsed
  obtain ⟨entries, rfl, all⟩ := tidyEntries_of_parse parsed
  refine ⟨fun id item found => ?_, header, fun item member => ?_⟩
  · obtain ⟨entry, -, -, rfl⟩ := entry_of_get? found
    rfl
  · have short := forms item member
    obtain ⟨id, found⟩ := SortedMap.mem_values.mp member
    obtain ⟨entry, inside, solid, rfl⟩ := entry_of_get? found
    obtain ⟨clean, trimmed⟩ := all entry inside
    refine ⟨⟨solid, clean.comments, clean.extracted, clean.places, fun flag there => ?_, fun there => ?_,
      short⟩, fun comment there => ?_, fun comment there => ?_⟩
    · exact (clean.flags flag there).1
    · exact (clean.flags fuzzyFlag there).2 rfl
    · exact ⟨clean.comments comment there, trimmed.comments comment there⟩
    · exact ⟨clean.extracted comment there, trimmed.extracted comment there⟩

theorem tidy_of_short {text : String} {catalog : Catalog} (parsed : parse text = .ok catalog)
    (fits : text.toList.length ≤ Decimal.wordMax) : catalog.Tidy :=
  tidy_of_parse parsed fun item member => ((legible_of_parse parsed fits).items item member).forms

theorem length_writtenForms (item : Item) :
    (writtenForms item).length ≤ max 1 item.forms.length := by
  unfold writtenForms
  split
  · exact Nat.zero_le _
  · split
    · exact Nat.le_max_left 1 _
    · exact Nat.le_max_right 1 _

/-- **What is read of a written catalog is tidy again.** -/
theorem Legible.tidy_reread {catalog : Catalog} (legible : catalog.Legible) : catalog.reread.Tidy := by
  refine tidy_of_parse legible.parse_render fun item member => ?_
  obtain ⟨id, found⟩ := SortedMap.mem_values.mp member
  rw [reread, SortedMap.get?_mapValues] at found
  obtain ⟨own, there, rfl⟩ := Option.map_eq_some_iff.mp found
  have short := (legible.items own (SortedMap.mem_values.mpr ⟨id, there⟩)).forms
  have written := length_writtenForms own
  show (writtenForms own).length ≤ _
  omega

end Catalog

end Localization

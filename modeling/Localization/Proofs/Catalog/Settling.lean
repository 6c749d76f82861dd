import Localization.Proofs.Catalog.Lasting

/-
**Files whose text settles.**

A file may be written by hand in many ways, and reading it drops, trims, moves and joins what stands in
it. What is read is in the form in which it is written: only marks around a path may be dropped once
more. So the text of a file without such marks is the same however often it is read and written again.

* `Unisolated` — files without isolating marks on their references lines.
* `Entry.mem_references_read`, `isPlace_of_ofChars` — where the references of entries come from.
* `lasting_of_unisolated` — what is read of such a file is lasting.
* `render_settles` — its text is the same after it was written once.
-/

namespace Localization

open Text

namespace Catalog

/-! ### Files without isolating marks -/

/-- A file has no isolating marks on its references lines. -/
def Unisolated (text : String) : Prop :=
  ∀ line ∈ Text.lines text.toList, ['#', ':'] <+: line → isolateStart ∉ line ∧ isolateEnd ∉ line

instance (text : String) : Decidable (Unisolated text) :=
  inferInstanceAs (Decidable (∀ line ∈ Text.lines text.toList,
    ['#', ':'] <+: line → isolateStart ∉ line ∧ isolateEnd ∉ line))

theorem trimEnd_begins (text : List Char) : trimEnd text <+: text := by
  have kept := List.dropWhile_suffix (l := text.reverse) isBlank
  rwa [← List.reverse_prefix, List.reverse_reverse] at kept

/-- A place that can be written and read. -/
def IsPlace (place : Reference) : Prop := IsPath place.path ∧ place.line ≤ Decimal.wordMax

theorem Comment.ofChars_eq_references {text : List Char} {places : List Reference}
    (said : Comment.ofChars text = .references places) :
    ∃ rest, text = '#' :: ':' :: rest ∧ places = (splitReferences rest).filterMap Reference.ofChars? := by
  unfold Comment.ofChars at said
  split at said
  · cases said
  · cases said
  · rename_i rest
    cases said
    exact ⟨rest, rfl, rfl⟩
  · cases said
  · cases said
  · cases said
  · cases said

/-- **A references line without isolating marks names places that can be written and read.** -/
theorem isPlace_of_ofChars {line : List Char} {places : List Reference} (clean : '\n' ∉ line)
    (plain : ['#', ':'] <+: line → isolateStart ∉ line ∧ isolateEnd ∉ line)
    (said : Line.ofChars line = .ok (.comment (.references places))) : ∀ place ∈ places, IsPlace place := by
  have comment : Comment.ofChars (trimEnd line) = .references places := by
    unfold Line.ofChars at said
    dsimp only at said
    split at said
    · cases said
    · split at said
      · cases (Line.ofContent_eq_comment said).1
      · exact (Line.ofContent_eq_comment said).2.symm
  obtain ⟨rest, starts, rfl⟩ := Comment.ofChars_eq_references comment
  have start : ['#', ':'] <+: line := by
    have whole : ['#', ':'] <+: trimEnd line := ⟨rest, starts.symm⟩
    exact whole.trans (trimEnd_begins line)
  obtain ⟨unopened, unclosed⟩ := plain start
  intro place member
  obtain ⟨token, inside, read⟩ := List.mem_filterMap.mp member
  obtain ⟨solid, fits⟩ := Reference.solid_of_ofChars? read
  have within {c : Char} (there : c ∈ place.path.toList) : c ∈ line := by
    have part := mem_of_mem_splitReferences inside (Reference.mem_of_ofChars? read there)
    refine mem_of_mem_trimEnd ?_
    rw [starts]
    exact List.mem_cons_of_mem _ (List.mem_cons_of_mem _ part)
  exact ⟨⟨solid, fun newline => clean (within newline), fun mark => unopened (within mark),
    fun mark => unclosed (within mark)⟩, fits⟩

namespace Entry

variable {entry next other : Entry} {place : Reference}

theorem mem_references_addComment {comment : Comment}
    (inside : place ∈ (entry.addComment comment).references.keys) :
    place ∈ entry.references.keys ∨ ∃ places, comment = .references places ∧ place ∈ places := by
  cases comment with
  | references places =>
    rcases SortedSet.mem_keys_foldl_insert.mp inside with new | before
    · exact .inr ⟨places, rfl, new⟩
    · exact .inl before
  | _ => exact .inl inside

theorem mem_references_closing (condition : Bool)
    (member : other ∈ (entry.closing condition).1 ∨ other = (entry.closing condition).2)
    (inside : place ∈ other.references.keys) : place ∈ entry.references.keys := by
  cases condition with
  | false =>
    obtain closed | rfl := member
    · cases closed
    · exact inside
  | true =>
    obtain closed | rfl := member
    · rwa [List.mem_singleton.mp closed] at inside
    · cases inside

/-- **The references of entries come from references lines.** -/
theorem mem_references_read {words : Line} {closed : List Entry}
    (taken : entry.read words = .ok (closed, next)) (member : other ∈ closed ∨ other = next)
    (inside : place ∈ other.references.keys) :
    place ∈ entry.references.keys ∨
      ∃ places, words = .comment (.references places) ∧ place ∈ places := by
  cases words with
  | blank =>
    cases taken
    exact .inl (mem_references_closing true member inside)
  | skipped =>
    cases taken
    exact .inl (mem_references_closing false member inside)
  | comment comment =>
    cases taken
    obtain closed | rfl := member
    · exact .inl (mem_references_closing _ (.inl closed) inside)
    · rcases mem_references_addComment inside with before | ⟨places, rfl, new⟩
      · exact .inl (mem_references_closing _ (.inr rfl) before)
      · exact .inr ⟨places, rfl, new⟩
  | more text =>
    cases current : entry.current with
    | none =>
      rw [read, current] at taken
      cases taken
    | some keyword =>
      rw [read, current] at taken
      cases taken
      obtain closed | rfl := member
      · cases closed
      · have same : (entry.extendString keyword text).references = entry.references := by
          cases keyword <;> rfl
        exact .inl (same ▸ inside)
  | keyword obsolete keyword text =>
    cases taken
    obtain closed | rfl := member
    · exact .inl (mem_references_closing _ (.inl closed) inside)
    · have same (entry : Entry) : (entry.setString keyword text).references = entry.references := by
        cases keyword <;> rfl
      rw [same] at inside
      exact .inl (mem_references_closing _ (.inr rfl) inside)

end Entry

/-- **What is read of a file without isolating marks is lasting.** -/
theorem lasting_of_unisolated {text : String} {file : Catalog} (parsed : parse text = .ok file)
    (fits : text.toList.length ≤ Decimal.wordMax) (plain : Unisolated text) :
    ∀ item ∈ file.items.values, LastingItem item := by
  have tidy := tidy_of_short parsed fits
  obtain ⟨closed, last, all, rfl⟩ := reads_of_parseLines parsed
  have places : ∀ entry ∈ closed ++ [last], ∀ place ∈ entry.references.keys, IsPlace place := by
    refine all.forall_entries (P := fun entry => ∀ place ∈ entry.references.keys, IsPlace place)
      (fun line member entry words closed next good said taken => ?_) (List.forall_mem_nil _)
    have each {other : Entry} (found : other ∈ closed ∨ other = next) :
        ∀ place ∈ other.references.keys, IsPlace place := by
      intro place inside
      rcases Entry.mem_references_read taken found inside with before | ⟨places, rfl, new⟩
      · exact good place before
      · exact isPlace_of_ofChars (newline_not_mem_lines member) (plain line member) said place new
    exact ⟨fun other found => each (.inl found), each (.inr rfl)⟩
  intro item member
  refine ⟨(tidy.items item member).comments, (tidy.items item member).extracted, ?_⟩
  obtain ⟨id, found⟩ := SortedMap.mem_values.mp member
  obtain ⟨entry, inside, -, rfl⟩ := entry_of_get? found
  have good := places entry inside
  exact rereadReferences_of_canonical (fun place there => (good place there).1)
    fun place there => (good place there).2

/-- **The text of a file settles when it is written once**, if it has no isolating marks on its
references lines: it can be read again, and is then written in the same way. -/
theorem render_settles {text : String} {file : Catalog} (parsed : parse text = .ok file)
    (fits : text.toList.length ≤ Decimal.wordMax) (plain : Unisolated text) :
    ∃ again, parse (render file) = .ok again ∧ render again = render file := by
  have legible := legible_of_parse parsed fits
  have tidy := tidyHeader_of_parse parsed
  have header : rereadHeader file.header = file.header :=
    rereadHeader_of_canonical tidy.comments tidy.fields
  have items : body (rereadItems file.items) = body file.items :=
    (body_rereadItems_iff legible.keyed legible.items).mpr (lasting_of_unisolated parsed fits plain)
  exact ⟨file.reread, legible.parse_render, render_congr header items⟩

/-- A file in which hardly anything stands as it is written: with blanks and carriage returns at the
ends of lines, a context, a form under a wrong index, two entries for an id and an obsolete one. -/
def untidyText : String :=
  "# Shop \nmsgid \"\"\nmsgstr \"X:y\\nz\"\r\n#,fuzzy,, c\n#:b:2 a:9\t c\n#.n \nmsgctxt \"m\"\n" ++
    "msgid \"cat\"\nmsgid_plural \"s\"\nmsgstr[1] \"t\"\n \n#~ msgid \"old\"\nmsgid \"cat\""

/-- What the file is read as. -/
def untidyFile : Catalog where
  header := ⟨["Shop"], [("X", "y")]⟩
  items := .ofList [
    ("cat", { Item.ofId "cat" with
      plural := some "s"
      references := .ofList [⟨"a", 9⟩, ⟨"b", 2⟩]
      forms := ["t"]
      extracted := ["n"]
      flags := ["c"]
      fuzzy := true }),
    ("old", { Item.ofId "old" with obsolete := true })]

theorem render_settles_untidyText :
    parse untidyText = .ok untidyFile ∧ untidyText.toList.length ≤ Decimal.wordMax ∧
      Unisolated untidyText ∧
      ∃ again, parse (render untidyFile) = .ok again ∧ render again = render untidyFile := by
  have parsed : parse untidyText = .ok untidyFile := by decide +kernel
  have fits : untidyText.toList.length ≤ Decimal.wordMax := by decide +kernel
  have plain : Unisolated untidyText := by decide +kernel
  exact ⟨parsed, fits, plain, render_settles parsed fits plain⟩

end Catalog

end Localization

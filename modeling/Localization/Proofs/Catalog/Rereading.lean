import Localization.Proofs.Catalog.Items

/-
**The written text of a catalog, read again.**

A file starts with the entry of its header, and each item comes behind a blank line, in a paragraph
of its own. So the entries of a file are those of its paragraphs.

* `Entry.reads_paragraphs` — paragraphs are read one by one.
* `parse_render` — the catalog that is read of the text of a catalog whose paragraphs can be read.
* `reads_of_parse_render` — if the text can be read, so can all paragraphs.
* `Catalog.Legible`, `Legible.parse_render` — catalogs whose items are legible.
-/

namespace Localization

open Text

/-- Every item stands under its id. -/
def Items.Keyed (items : Items) : Prop :=
  ∀ id item, items.get? id = some item → item.id = id

namespace Catalog

theorem keyed_ofEntries (entries : List Entry) : (ofEntries entries).items.Keyed := by
  intro id item found
  rw [get?_ofEntries] at found
  exact (id_of_counting found).2

/-! ### The header -/

/-- The line of a field in the localized text of the header. -/
def fieldChars (field : String × String) : List Char :=
  field.1.toList ++ ':' :: ' ' :: field.2.toList

/-- The entry that is read for a header. -/
def headerEntry (header : Header) : Entry where
  comments := header.comments.map rereadComment
  id := some ""
  localized := some (String.ofList (header.fields.flatMap fun field => fieldChars field ++ ['\n']))
  current := some .localized

/-- A header as it is read back. -/
def rereadHeader (header : Header) : Header where
  comments := header.comments.map rereadComment
  fields := (header.fields.flatMap fun field => cutLines (fieldChars field)).filterMap Header.field?

theorem header_headerEntry (header : Header) : (headerEntry header).header = rereadHeader header := by
  have lines : header.fields.flatMap (fun field => fieldChars field ++ ['\n']) =
      (header.fields.map fieldChars).flatMap (· ++ ['\n']) := by
    rw [List.flatMap_map]
  have text : (headerEntry header).localized.getD "" =
      String.ofList ((header.fields.map fieldChars).flatMap (· ++ ['\n'])) := by
    rw [← lines]
    rfl
  have parts := cutLines_flatMap (header.fields.map fieldChars)
  rw [cutLines] at parts
  have last : Header.field? [] = none := rfl
  have fields : Header.fieldsOfText ((headerEntry header).localized.getD "") =
      (rereadHeader header).fields := by
    rw [text, Header.fieldsOfText, String.toList_ofList, parts, List.filterMap_append,
      List.filterMap_cons_none last, List.flatMap_map]
    exact List.append_nil _
  rw [Entry.header, fields]
  rfl

theorem newline_not_mem_headerLines {header : Header}
    (comments : ∀ comment ∈ header.comments, '\n' ∉ comment.toList) :
    ∀ line ∈ headerLines header, '\n' ∉ line := by
  intro line member
  unfold headerLines at member
  simp only [List.mem_append, List.mem_map, List.mem_cons, List.not_mem_nil, or_false] at member
  rcases member with (⟨comment, inside, rfl⟩ | rfl | rfl) | ⟨field, inside, rfl⟩
  · exact newline_not_mem_commentLine (by decide) (comments comment inside)
  · decide
  · decide
  · exact newline_not_mem_quote _

/-- The lines of a header are read as one entry. -/
theorem reads_headerLines {header : Header}
    (comments : ∀ comment ∈ header.comments, '\n' ∉ comment.toList) :
    Entry.start.Reads ((headerLines header).flatMap cutLines) [] (headerEntry header) := by
  -- The keywords of a header are those of a live item that has the empty id.
  let commented : Entry := { comments := header.comments.map rereadComment }
  have translators : Entry.start.Reads (header.comments.map (commentLine ['#'])) [] commented :=
    Entry.reads_translators header.comments rfl
  have named : commented.Reads (stringLines [] .id "") [] (commented.setString .id "") :=
    Entry.reads_stringLines (Item.ofId "") .id trivial commented rfl trivial ""
  have translated : (commented.setString .id "").Reads (stringLines [] .localized "") []
      ((commented.setString .id "").setString .localized "") :=
    Entry.reads_stringLines (Item.ofId "") .localized trivial _ rfl trivial ""
  have fields := Entry.reads_more (Item.ofId "") .localized
    (header.fields.map fun field => fieldChars field ++ ['\n'])
    (commented.setString .id "") trivial ""
  rw [List.map_map, ← List.flatMap_def, String.empty_append] at fields
  have same : headerLines header = header.comments.map (commentLine ['#']) ++
      (stringLines [] .id "" ++ (stringLines [] .localized "" ++ header.fields.map fieldLine)) := by
    rw [headerLines, List.append_assoc]
    rfl
  have lines : header.fields.map fieldLine = header.fields.map
      ((markOf (Item.ofId "") ++ Quoted.quote ·) ∘ fun field => fieldChars field ++ ['\n']) := by
    refine List.map_congr_left fun field _ => ?_
    rw [fieldLine, Function.comp_apply, fieldChars]
    rfl
  rw [flatMap_cutLines (newline_not_mem_headerLines comments), same, lines]
  exact translators.append_open (named.append_open (translated.append_open fields))

/-! ### Paragraphs -/

/-- **Paragraphs are read one by one**: the blank line before each closes the entry that is open. -/
theorem Entry.reads_paragraphs {α : Type} {blocks : List α} {lines : α → List (List Char)}
    {items : α → List Item}
    (each : ∀ block ∈ blocks, ∃ closed last, Entry.start.Reads (lines block) closed last ∧
      (closed ++ [last]).filterMap (·.item?) = items block) (entry : Entry) :
    ∃ closed last rest, entry.Reads (blocks.flatMap fun block => [] :: lines block) closed last ∧
      closed ++ [last] = entry :: rest ∧ rest.filterMap (·.item?) = blocks.flatMap items := by
  induction blocks generalizing entry with
  | nil => exact ⟨[], entry, [], Reads.nil entry, rfl, rfl⟩
  | cons block others ih =>
    obtain ⟨closed, last, here, found⟩ := each block List.mem_cons_self
    obtain ⟨after, final, rest, later, whole, more⟩ :=
      ih (fun other member => each other (List.mem_cons_of_mem block member)) last
    have blank : entry.Reads [[]] [entry] .start := Reads.single Line.ofChars_nil rfl
    refine ⟨[entry] ++ (closed ++ after), final, closed ++ last :: rest, ?_, ?_, ?_⟩
    · exact blank.append (here.append later)
    · rw [List.append_assoc, List.append_assoc, whole]
      rfl
    · rw [← List.singleton_append (l := rest), ← List.append_assoc, List.filterMap_append, found, more,
        List.flatMap_cons]

/-- Paragraphs that are read have lines that can be read. -/
theorem Entry.Reads.paragraphs {α : Type} {blocks : List α} {lines : α → List (List Char)}
    {entry last : Entry} {closed : List Entry}
    (all : entry.Reads (blocks.flatMap fun block => [] :: lines block) closed last) :
    ∀ block ∈ blocks, ∃ closed last, Entry.start.Reads (lines block) closed last := by
  induction blocks generalizing entry closed with
  | nil =>
    intro block member
    cases member
  | cons first others ih =>
    rw [List.flatMap_cons, List.cons_append, ← List.singleton_append] at all
    obtain ⟨_, opened, _, blank, below, -⟩ := all.of_append
    obtain ⟨words, said, taken⟩ := blank.of_single
    rw [Line.ofChars_nil] at said
    cases said
    cases taken
    obtain ⟨here, next, _, read, later, -⟩ := below.of_append
    intro block member
    rcases List.mem_cons.mp member with rfl | inside
    · exact ⟨here, next, read⟩
    · exact ih later block inside

/-! ### Files -/

/-- What is read of a text that is written line by line. -/
theorem parse_written (written : List (List Char)) :
    parse (String.ofList (written.flatMap (· ++ ['\n']))) = parseLines (written.flatMap cutLines) := by
  have same (entry : Entry) (number : Nat) (lines : List (List Char)) :
      entry.reads number (lines.map dropReturn) = entry.reads number lines := by
    induction lines generalizing entry number with
    | nil => rfl
    | cons line rest ih =>
      rw [List.map_cons, Entry.reads, Entry.reads, Line.ofChars_dropReturn]
      simp only [ih]
  rw [parse, String.toList_ofList, lines_flatMap, parseLines_eq, same, ← parseLines_eq]

/-- The lines of a written file. -/
theorem parse_render_eq (catalog : Catalog) :
    parse (render catalog) = parseLines (catalog.lines.flatMap cutLines) :=
  parse_written catalog.lines

theorem cutLines_lines (catalog : Catalog) :
    catalog.lines.flatMap cutLines = (headerLines catalog.header).flatMap cutLines ++
      (writtenItems catalog.items).flatMap fun item => [] :: (itemLines item).flatMap cutLines := by
  have paragraph (item : Item) :
      ([] :: itemLines item).flatMap cutLines = [] :: (itemLines item).flatMap cutLines := rfl
  rw [lines, List.flatMap_append, List.flatMap_assoc]
  simp only [paragraph]

/-- The catalog of entries of which the first is that of a header. -/
theorem ofEntries_headerEntry (header : Header) (rest : List Entry) :
    ofEntries (headerEntry header :: rest) =
      ⟨rereadHeader header, (rest.filterMap (·.item?)).foldl addItem .empty⟩ := by
  have first : (headerEntry header).isHeader = true := rfl
  have unnamed : (headerEntry header).item? = none := rfl
  rw [ofEntries, List.find?_cons_of_pos first, List.filterMap_cons_none unnamed,
    ← header_headerEntry]
  rfl

/-- **What is read of a written file**, if all its paragraphs can be read: the header, and the items
of the paragraphs in their order. -/
theorem parse_render {catalog : Catalog} {items : Item → List Item}
    (comments : ∀ comment ∈ catalog.header.comments, '\n' ∉ comment.toList)
    (each : ∀ item ∈ writtenItems catalog.items, ∃ closed last,
      Entry.start.Reads ((itemLines item).flatMap cutLines) closed last ∧
        (closed ++ [last]).filterMap (·.item?) = items item) :
    parse (render catalog) =
      .ok ⟨rereadHeader catalog.header,
        ((writtenItems catalog.items).flatMap items).foldl addItem .empty⟩ := by
  obtain ⟨closed, last, rest, paragraphs, whole, found⟩ :=
    Entry.reads_paragraphs each (headerEntry catalog.header)
  have all := (reads_headerLines comments).append_open paragraphs
  rw [parse_render_eq, cutLines_lines, all.parseLines_eq, whole, ofEntries_headerEntry, found]

/-- A written file that can be read has paragraphs that can be read. -/
theorem reads_of_parse_render {catalog reread : Catalog}
    (parsed : parse (render catalog) = .ok reread) :
    ∀ item ∈ writtenItems catalog.items, ∃ closed last,
      Entry.start.Reads ((itemLines item).flatMap cutLines) closed last := by
  rw [parse_render_eq, cutLines_lines] at parsed
  obtain ⟨closed, last, all, -⟩ := reads_of_parseLines parsed
  obtain ⟨_, _, _, -, paragraphs, -⟩ := all.of_append
  exact paragraphs.paragraphs

/-! ### Legible catalogs -/

theorem mem_writtenItems {items : Items} {item : Item} :
    item ∈ writtenItems items ↔ item ∈ items.values := by
  rw [writtenItems, List.mem_append, List.mem_filter, List.mem_filter]
  cases item.obsolete <;> simp

/-- A catalog whose comments and items can be read back, and whose items stand under their ids. -/
structure Legible (catalog : Catalog) : Prop where
  keyed : catalog.items.Keyed
  comments : ∀ comment ∈ catalog.header.comments, '\n' ∉ comment.toList
  items : ∀ item ∈ catalog.items.values, LegibleItem item

/-- A catalog as it is read back. -/
def reread (catalog : Catalog) : Catalog :=
  ⟨rereadHeader catalog.header, catalog.items.mapValues fun _ item => rereadItem item⟩

/-- Of the items as they are written, the one with an id counts for the id. -/
theorem counting_writtenItems {items : Items} (keyed : items.Keyed) (id : String) :
    counting id ((writtenItems items).map rereadItem) = (items.get? id).map rereadItem := by
  have alone {item : Item} (member : item ∈ writtenItems items) :
      items.get? item.id = some item := by
    obtain ⟨key, found⟩ := SortedMap.mem_values.mp (mem_writtenItems.mp member)
    rw [keyed key item found, found]
  cases found : items.get? id with
  | none =>
    refine counting_eq_none.mpr fun image inside same => ?_
    obtain ⟨item, member, rfl⟩ := List.mem_map.mp inside
    have there := alone member
    rw [show item.id = id from same, found] at there
    cases there
  | some item =>
    have member : item ∈ writtenItems items :=
      mem_writtenItems.mpr (SortedMap.mem_values.mpr ⟨id, found⟩)
    have named : (rereadItem item).id = id := keyed id item found
    have counted := counting_of_unique (List.mem_map_of_mem (f := rereadItem) member) (by
      intro other inside same
      obtain ⟨written, here, rfl⟩ := List.mem_map.mp inside
      have there := alone here
      rw [show written.id = item.id from same, keyed id item found, found] at there
      rw [Option.some.inj there])
    rw [named] at counted
    exact counted

/-- The written items, added one by one as they are read back. -/
theorem foldl_writtenItems {items : Items} (keyed : items.Keyed) :
    ((writtenItems items).map rereadItem).foldl addItem .empty =
      items.mapValues fun _ item => rereadItem item := by
  refine SortedMap.ext fun id => ?_
  rw [get?_foldl_addItem, SortedMap.get?_empty, SortedMap.get?_mapValues]
  exact counting_writtenItems keyed id

/-- **A legible catalog is read back from its text**, but for what `reread` leaves out. -/
theorem Legible.parse_render {catalog : Catalog} (legible : catalog.Legible) :
    parse (render catalog) = .ok catalog.reread := by
  have each : ∀ item ∈ writtenItems catalog.items, ∃ closed last,
      Entry.start.Reads ((itemLines item).flatMap cutLines) closed last ∧
        (closed ++ [last]).filterMap (·.item?) = [rereadItem item] := by
    intro item member
    have one := legible.items item (mem_writtenItems.mp member)
    obtain ⟨current, read⟩ := one.reads
    refine ⟨_, _, read, ?_⟩
    rw [List.nil_append, List.filterMap_cons_some (Entry.item?_keyed one.id current)]
    rfl
  rw [Catalog.parse_render legible.comments each, ← List.map_eq_flatMap, foldl_writtenItems legible.keyed]
  rfl

end Catalog

end Localization

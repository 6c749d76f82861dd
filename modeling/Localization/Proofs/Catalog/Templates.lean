import Localization.Proofs.Catalog.RoundTrip

/-
**Written templates, read back.**

The items of a scan are all written, and nothing but the comments from the sources can keep them
from being read back: a comment of several lines is written as it is, so that its lines after the
first one are lines of the file.

* `commentEntries` — what the comment lines of an item are read as, up to its references.
* `CommentsAgree` — these entries can be read, and they change neither ids nor references.
* `readsBack_iff` — a template is read back exactly if the comments agree with it.
* `commentsAgree_of_clean` — comments of one line do.
-/

namespace Localization

open Text

namespace Catalog

/-! ### Entries without keywords -/

namespace Entry

/-- An entry that says it has no keywords has none. -/
def Proper (entry : Entry) : Prop :=
  entry.hasKeywords = false → entry.Fresh

variable {entry : Entry}

theorem fresh_start : Entry.start.Fresh := by
  constructor <;> rfl

theorem Fresh.addComment (fresh : entry.Fresh) (comment : Comment) :
    (entry.addComment comment).Fresh := by
  cases comment <;> exact { fresh with }

theorem Proper.closing (proper : entry.Proper) (condition : Bool) :
    (entry.closing condition).2.Proper := by
  cases condition
  · exact proper
  · exact fun _ => fresh_start

theorem proper_of_current {keyword : Keyword} (current : entry.current = some keyword) :
    entry.Proper := by
  intro silent
  rw [hasKeywords, current, Option.isSome_some, Bool.or_true] at silent
  cases silent

theorem Proper.read (proper : entry.Proper) {words : Line} {closed : List Entry} {next : Entry}
    (taken : entry.read words = .ok (closed, next)) : next.Proper := by
  cases words with
  | blank =>
    cases taken
    exact fun _ => fresh_start
  | skipped =>
    cases taken
    exact proper
  | comment comment =>
    cases taken
    intro silent
    rw [hasKeywords_addComment] at silent
    exact (proper.closing _ silent).addComment comment
  | more text =>
    cases current : entry.current with
    | none =>
      rw [Entry.read, current] at taken
      cases taken
    | some keyword =>
      rw [Entry.read, current] at taken
      cases taken
      exact proper_of_current ((current_extendString entry keyword text).trans current)
  | keyword obsolete keyword text =>
    cases taken
    exact proper_of_current (current_setString _ keyword text)

theorem Proper.reads {lines : List (List Char)} (proper : entry.Proper) {closed : List Entry}
    {last : Entry} (all : entry.Reads lines closed last) : last.Proper := by
  induction lines generalizing entry closed with
  | nil =>
    obtain ⟨-, rfl⟩ := all.unique (Reads.nil entry)
    exact proper
  | cons line rest ih =>
    rw [← List.singleton_append] at all
    obtain ⟨_, next, _, here, later, -⟩ := all.of_append
    obtain ⟨words, -, taken⟩ := here.of_single
    exact ih (proper.read taken) later

theorem hasKeywords_closing (entry : Entry) :
    (entry.closing entry.hasKeywords).2.hasKeywords = false := by
  cases spoken : entry.hasKeywords
  · exact spoken
  · rfl

/-- A comment line closes an entry that has keywords, and the next one goes on with it. -/
theorem Reads.closing {line : List Char} {rest : List (List Char)} {comment : Comment}
    (said : Line.ofChars line = .ok (.comment comment)) {closed : List Entry} {last : Entry}
    (next : (entry.closing entry.hasKeywords).2.Reads (line :: rest) closed last) :
    entry.Reads (line :: rest) ((entry.closing entry.hasKeywords).1 ++ closed) last := by
  rw [← List.singleton_append] at next ⊢
  obtain ⟨first, middle, others, here, later, rfl⟩ := next.of_append
  obtain ⟨words, again, taken⟩ := here.of_single
  rw [said] at again
  cases again
  rw [read, hasKeywords_closing] at taken
  cases taken
  have own : entry.Reads [line] (entry.closing entry.hasKeywords).1
      ((entry.closing entry.hasKeywords).2.addComment comment) := single said rfl
  exact own.append later

end Entry

/-! ### The paragraph of an item -/

/-- An item as a scan makes it: it is mentioned in the sources, and translators added nothing. -/
structure Scanned (item : Item) : Prop where
  id : item.id ≠ ""
  untouched : item.asTemplate = item
  single : item.plural = none
  mentioned : item.references.keys ≠ []
  paths : ∀ place ∈ item.references.keys, IsPath place.path
  fits : ∀ place ∈ item.references.keys, place.line ≤ Decimal.wordMax

/-- The entry with more references. -/
def Entry.placed (entry : Entry) (places : List Reference) : Entry :=
  { entry with
    references := places.foldl (fun set place => set.insert place ()) entry.references }

/-- What the lines of the comments of an item are read as by themselves: the entries that end
before the references of the item, and the entry that the references go to. -/
def commentEntries (item : Item) : Except ParseError (List Entry × Entry) :=
  (Entry.start.reads 1 ((item.extracted.map (commentLine ['#', '.'])).flatMap cutLines)).map
    fun (closed, last) =>
      let (ended, next) := last.closing last.hasKeywords
      (closed ++ ended, next)

/-- The items that the lines of an item are read as: those of its comments, and its own. -/
def paragraphItems (item : Item) : List Item :=
  match commentEntries item with
  | .error _ => []
  | .ok (strays, own) =>
    strays.filterMap (·.item?) ++ [(own.placed item.references.keys).item item.id]

theorem commentEntries_eq_ok {item : Item} {strays : List Entry} {own : Entry}
    (made : commentEntries item = .ok (strays, own)) :
    ∃ closed last,
      Entry.start.Reads ((item.extracted.map (commentLine ['#', '.'])).flatMap cutLines) closed last ∧
        strays = closed ++ (last.closing last.hasKeywords).1 ∧
        own = (last.closing last.hasKeywords).2 := by
  unfold commentEntries at made
  cases read : Entry.start.reads 1
      ((item.extracted.map (commentLine ['#', '.'])).flatMap cutLines) with
  | error error =>
    rw [read] at made
    cases made
  | ok pair =>
    obtain ⟨closed, last⟩ := pair
    rw [read] at made
    cases made
    exact ⟨closed, last, Entry.reads_eq_ok_iff.mp read, rfl, rfl⟩

namespace Scanned

variable {item : Item}

theorem obsolete (scanned : Scanned item) : item.obsolete = false := by
  rw [← scanned.untouched]
  rfl

theorem localized (scanned : Scanned item) : item.localized = none := by
  rw [← scanned.untouched]
  rfl

/-- The lines of the references of an item, and those behind them, are clean. -/
theorem itemLines_eq (scanned : Scanned item) :
    (itemLines item).flatMap cutLines =
      (item.extracted.map (commentLine ['#', '.'])).flatMap cutLines ++
        ((item.references.keys.map fun place => ['#', ':', ' '] ++ referenceChars place) ++
          (stringLines (markOf item) .id item.id ++ localizedLines item)) := by
  have comments : item.comments = [] := by
    rw [← scanned.untouched]
    rfl
  have flags : flagLines item = [] := by
    rw [← scanned.untouched]
    rfl
  have places : ∀ line ∈ item.references.keys.map fun place => ['#', ':', ' '] ++ referenceChars place,
      '\n' ∉ line := by
    intro line member
    obtain ⟨place, inside, rfl⟩ := List.mem_map.mp member
    have clean := newline_not_mem_referenceChars (scanned.paths place inside).newline
    simp [clean]
  rw [itemLines, commentLines, comments, flags, List.map_nil, List.nil_append, List.append_nil,
    List.append_assoc, List.append_assoc, List.flatMap_append, List.flatMap_append,
    flatMap_cutLines places, flatMap_cutLines (newline_not_mem_keywordLines item)]

/-- The references of an item go to the entry that its comments leave, once that is settled. -/
theorem reads_references (scanned : Scanned item) (entry : Entry) :
    entry.Reads (item.references.keys.map fun place => ['#', ':', ' '] ++ referenceChars place)
      (entry.closing entry.hasKeywords).1
      ((entry.closing entry.hasKeywords).2.placed item.references.keys) := by
  have settled := Entry.reads_references item.references.keys (Entry.hasKeywords_closing entry)
  rw [flatMap_rereadPlaces scanned.paths scanned.fits] at settled
  cases places : item.references.keys with
  | nil => exact absurd places scanned.mentioned
  | cons place rest =>
    rw [places] at settled
    have said := Line.ofChars_references (trimEnd_referenceChars place)
      (referenceChars_ne_nil place)
    have read := Entry.Reads.closing said settled
    rw [List.append_nil] at read
    exact read

/-- The item of the entry that the keywords of an item end. -/
theorem item?_keyed (scanned : Scanned item) {own : Entry} (fresh : own.Fresh)
    (current : Option Keyword) :
    (own.keyed item current).item? = some (own.item item.id) := by
  have id : (own.keyed item current).id = some item.id := rfl
  have kept : (some item.id).filter (· ≠ "") = some item.id := by simp [scanned.id]
  have forms : (own.keyed item current).sortedForms = own.sortedForms := by
    rw [Entry.sortedForms_keyed, writtenForms_of_single scanned.single, Entry.sortedForms, fresh.forms,
      List.mergeSort_nil]
    rfl
  have localized : (own.keyed item current).localized.filter (· ≠ "") =
      own.localized.filter (· ≠ "") := by
    have solid : item.localized ≠ some "" := by
      intro empty
      rw [scanned.localized] at empty
      cases empty
    rw [Entry.keyed, filter_writtenText? scanned.single solid, scanned.localized, fresh.localized]
    rfl
  have plural : (own.keyed item current).pluralId = own.pluralId := by
    rw [Entry.keyed, scanned.single, fresh.pluralId]
  have obsolete : (own.keyed item current).obsolete = own.obsolete := by
    rw [Entry.keyed, scanned.obsolete, fresh.obsolete]
  rw [Entry.item?, id, kept, Option.map_some, Entry.item, forms, localized, plural, obsolete]
  rfl

/-- **The lines of an item are read as the entries of its comments and as its own entry.** -/
theorem reads (scanned : Scanned item) {strays : List Entry} {own : Entry}
    (made : commentEntries item = .ok (strays, own)) :
    ∃ last, Entry.start.Reads ((itemLines item).flatMap cutLines) strays last ∧
      (strays ++ [last]).filterMap (·.item?) = paragraphItems item := by
  have paragraph : paragraphItems item =
      strays.filterMap (·.item?) ++ [(own.placed item.references.keys).item item.id] := by
    rw [paragraphItems, made]
  obtain ⟨closed, next, comments, rfl, rfl⟩ := commentEntries_eq_ok made
  have proper : next.Proper := Entry.Proper.reads (fun _ => Entry.fresh_start) comments
  have fresh := proper.closing next.hasKeywords (Entry.hasKeywords_closing next)
  have placed : ((next.closing next.hasKeywords).2.placed item.references.keys).Fresh :=
    { fresh with }
  have short : item.forms.length ≤ Decimal.wordMax + 1 := by
    rw [← scanned.untouched]
    exact Nat.zero_le _
  obtain ⟨current, keywords⟩ := placed.reads_keywords item short
  refine ⟨((next.closing next.hasKeywords).2.placed item.references.keys).keyed item current, ?_, ?_⟩
  · rw [scanned.itemLines_eq]
    have all := comments.append ((scanned.reads_references next).append keywords)
    rw [List.append_nil] at all
    exact all
  · rw [List.filterMap_append, List.filterMap_cons_some (scanned.item?_keyed placed current),
      paragraph]
    rfl

/-- If the lines of an item can be read, so can those of its comments. -/
theorem commentEntries_of_reads (scanned : Scanned item) {closed : List Entry} {last : Entry}
    (read : Entry.start.Reads ((itemLines item).flatMap cutLines) closed last) :
    ∃ strays own, commentEntries item = .ok (strays, own) := by
  rw [scanned.itemLines_eq] at read
  obtain ⟨first, next, _, comments, -, -⟩ := read.of_append
  unfold commentEntries
  rw [comments 1]
  exact ⟨_, _, rfl⟩

end Scanned

/-! ### Templates -/

/-- A text is read back as the ids and the references of items. -/
def ReadsBack (text : String) (items : Items) : Prop :=
  ∃ catalog, parse text = .ok catalog ∧ (∀ id, id ∈ catalog.items.keys ↔ id ∈ items.keys) ∧
    ∀ id item, items.get? id = some item →
      ∃ read, catalog.items.get? id = some read ∧ read.references = item.references

/-- The comments of items can be read, they bring in no other ids, and the item that counts for an
id has the references of that id. -/
structure CommentsAgree (items : Items) : Prop where
  readable : ∀ item ∈ items.values, ∃ strays own, commentEntries item = .ok (strays, own)
  ids : ∀ read ∈ items.values.flatMap paragraphItems, read.id ∈ items.keys
  references : ∀ id item, items.get? id = some item →
    ∀ read, counting id (items.values.flatMap paragraphItems) = some read →
      read.references = item.references

theorem writtenItems_of_scanned {items : Items} (scanned : ∀ item ∈ items.values, Scanned item) :
    writtenItems items = items.values := by
  have live : items.values.filter (!·.obsolete) = items.values := by
    refine List.filter_eq_self.mpr fun item member => ?_
    rw [(scanned item member).obsolete]
    rfl
  have retired : items.values.filter (·.obsolete) = [] := by
    refine List.filter_eq_nil_iff.mpr fun item member => ?_
    rw [(scanned item member).obsolete]
    exact Bool.false_ne_true
  rw [writtenItems, live, retired, List.append_nil]

/-- What is read of a template whose comments can be read. -/
theorem parse_render_of_readable {header : Header} {items : Items}
    (comments : ∀ comment ∈ header.comments, '\n' ∉ comment.toList)
    (scanned : ∀ item ∈ items.values, Scanned item)
    (readable : ∀ item ∈ items.values, ∃ strays own, commentEntries item = .ok (strays, own)) :
    ∃ catalog, parse (render ⟨header, items⟩) = .ok catalog ∧
      ∀ id, catalog.items.get? id = counting id (items.values.flatMap paragraphItems) := by
  have written := writtenItems_of_scanned scanned
  have each : ∀ item ∈ writtenItems items, ∃ closed last,
      Entry.start.Reads ((itemLines item).flatMap cutLines) closed last ∧
        (closed ++ [last]).filterMap (·.item?) = paragraphItems item := by
    rw [written]
    intro item member
    obtain ⟨strays, own, made⟩ := readable item member
    obtain ⟨last, read, found⟩ := (scanned item member).reads made
    exact ⟨strays, last, read, found⟩
  refine ⟨_, parse_render comments each, fun id => ?_⟩
  rw [get?_foldl_addItem, SortedMap.get?_empty, written]

/-- The own item of a paragraph is among its items. -/
theorem exists_mem_paragraphItems {items : Items} (keyed : items.Keyed)
    (readable : ∀ item ∈ items.values, ∃ strays own, commentEntries item = .ok (strays, own))
    {id : String} (member : id ∈ items.keys) :
    ∃ read ∈ items.values.flatMap paragraphItems, read.id = id := by
  obtain ⟨item, found⟩ := SortedMap.mem_keys.mp member
  have inside : item ∈ items.values := SortedMap.mem_values.mpr ⟨id, found⟩
  obtain ⟨strays, own, made⟩ := readable item inside
  refine ⟨(own.placed item.references.keys).item item.id, ?_, keyed id item found⟩
  rw [List.mem_flatMap]
  refine ⟨item, inside, ?_⟩
  rw [paragraphItems, made]
  exact List.mem_append_right _ List.mem_cons_self

/-- If a template can be read, so can its comments. -/
theorem readable_of_parse {header : Header} {items : Items}
    (scanned : ∀ item ∈ items.values, Scanned item) {catalog : Catalog}
    (parsed : parse (render ⟨header, items⟩) = .ok catalog) :
    ∀ item ∈ items.values, ∃ strays own, commentEntries item = .ok (strays, own) := by
  intro item member
  have written : item ∈ writtenItems items := mem_writtenItems.mpr member
  obtain ⟨closed, last, read⟩ := reads_of_parse_render parsed item written
  exact (scanned item member).commentEntries_of_reads read

/-- **A written template is read back exactly if the comments agree with it.** -/
theorem readsBack_iff {header : Header} {items : Items}
    (comments : ∀ comment ∈ header.comments, '\n' ∉ comment.toList) (keyed : items.Keyed)
    (scanned : ∀ item ∈ items.values, Scanned item) :
    ReadsBack (render ⟨header, items⟩) items ↔ CommentsAgree items := by
  constructor
  · rintro ⟨catalog, parsed, ids, references⟩
    have readable := readable_of_parse scanned parsed
    obtain ⟨again, reparsed, found⟩ := parse_render_of_readable comments scanned readable
    cases parsed.symm.trans reparsed
    refine ⟨readable, fun read member => ?_, fun id item there read counted => ?_⟩
    · rw [← ids, SortedMap.mem_keys]
      simp only [found]
      exact exists_counting.mpr ⟨read, member, rfl⟩
    · obtain ⟨own, placed, same⟩ := references id item there
      rw [found, counted] at placed
      cases placed
      exact same
  · rintro ⟨readable, ids, references⟩
    obtain ⟨catalog, parsed, found⟩ := parse_render_of_readable comments scanned readable
    refine ⟨catalog, parsed, fun id => ?_, fun id item there => ?_⟩
    · rw [SortedMap.mem_keys]
      simp only [found]
      rw [exists_counting]
      constructor
      · rintro ⟨read, member, rfl⟩
        exact ids read member
      · exact exists_mem_paragraphItems keyed readable
    · obtain ⟨read, counted⟩ := exists_counting.mpr
        (exists_mem_paragraphItems keyed readable (SortedMap.mem_keys.mpr ⟨item, there⟩))
      refine ⟨read, ?_, references id item there read counted⟩
      rw [found, counted]

/-- Comments of one line are read as comments, and nothing else. -/
theorem commentEntries_of_clean {item : Item}
    (clean : ∀ comment ∈ item.extracted, '\n' ∉ comment.toList) :
    commentEntries item =
      .ok ([], { Entry.start with extracted := item.extracted.map rereadComment }) := by
  have lines : ∀ line ∈ item.extracted.map (commentLine ['#', '.']), '\n' ∉ line := by
    intro line member
    obtain ⟨comment, inside, rfl⟩ := List.mem_map.mp member
    exact newline_not_mem_commentLine (by decide) (clean comment inside)
  have silent : Entry.start.hasKeywords = false := rfl
  have read := Entry.reads_extracted item.extracted silent
  rw [commentEntries, flatMap_cutLines lines, read 1]
  rfl

/-- **Comments of one line agree with their template.** -/
theorem commentsAgree_of_clean {items : Items} (keyed : items.Keyed)
    (clean : ∀ item ∈ items.values, ∀ comment ∈ item.extracted, '\n' ∉ comment.toList) :
    CommentsAgree items := by
  have own {read : Item} (member : read ∈ items.values.flatMap paragraphItems) :
      ∃ item ∈ items.values, read.id = item.id ∧ read.references = item.references := by
    obtain ⟨item, inside, here⟩ := List.mem_flatMap.mp member
    rw [paragraphItems, commentEntries_of_clean (clean item inside)] at here
    rw [List.mem_singleton.mp here]
    exact ⟨item, inside, rfl, SortedSet.ofList_keys item.references⟩
  refine ⟨fun item member => ⟨_, _, commentEntries_of_clean (clean item member)⟩,
    fun read member => ?_, fun id item found read counted => ?_⟩
  · obtain ⟨item, inside, same, -⟩ := own member
    obtain ⟨id, found⟩ := SortedMap.mem_values.mp inside
    rw [same, keyed id item found]
    exact SortedMap.mem_keys.mpr ⟨item, found⟩
  · obtain ⟨member, named⟩ := id_of_counting counted
    obtain ⟨other, inside, same, references⟩ := own member
    obtain ⟨key, there⟩ := SortedMap.mem_values.mp inside
    have equal : key = id := by rw [← keyed key other there, ← same, named]
    subst equal
    rw [there] at found
    cases found
    exact references

end Catalog

end Localization

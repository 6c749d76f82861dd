import Localization.Catalog.Reader
import Localization.Proofs.SortedMap

/-
**A catalog file, entry by entry.**

The reader of a file keeps header, items and the entry it is in. The entries that it closes depend
on the lines alone, and the catalog on these entries alone.

* `Entry.read`, `Entry.reads` — the entries that lines close, and the entry that stays open.
* `Catalog.ofEntries` — the catalog of entries in their order.
* `parseLines_eq` — reading a file is reading its entries and then making the catalog of them.
* `get?_ofEntries` — the item of an id is that of its first live entry, or else of its first one.
* `Entry.Reads` — lines that can be read wherever they stand, with `Reads.append` to put them
  together.
-/

namespace Localization.Catalog

namespace Entry

/-- The entry with the mark of obsolete entries on one of its keywords, or without it. -/
def marked (entry : Entry) (obsolete : Bool) : Entry :=
  { entry with obsolete := entry.obsolete || obsolete }

/-- The entry closed, and a new one opened, if the condition holds. -/
def closing (entry : Entry) (condition : Bool) : List Entry × Entry :=
  if condition then ([entry], .start) else ([], entry)

/-- What one more line makes of an entry: the entries that it closes, and the one that stays
open. -/
def read (entry : Entry) : Line → Except Fault (List Entry × Entry)
  | .blank => .ok ([entry], .start)
  | .skipped => .ok ([], entry)
  | .comment comment =>
    let (closed, next) := entry.closing entry.hasKeywords
    .ok (closed, next.addComment comment)
  | .more text =>
    match entry.current with
    | none => .error .stringWithoutKeyword
    | some keyword => .ok ([], entry.extendString keyword text)
  | .keyword obsolete keyword text =>
    let (closed, next) := entry.closing (Reader.startsEntry keyword && entry.id.isSome)
    .ok (closed, (next.marked obsolete).setString keyword text)

/-- What lines make of an entry; the first of them is line `number`. -/
def reads (entry : Entry) (number : Nat) :
    List (List Char) → Except ParseError (List Entry × Entry)
  | [] => .ok ([], entry)
  | line :: rest =>
    match (Line.ofChars line).bind entry.read with
    | .error fault => .error ⟨number, fault⟩
    | .ok (closed, next) =>
      (next.reads (number + 1) rest).map fun (others, last) => (closed ++ others, last)

/-- The entry is the header of its file, if it is the first such one. -/
def isHeader (entry : Entry) : Bool :=
  entry.id = some "" && !entry.obsolete

/-- The item of an entry that has an id. -/
def item? (entry : Entry) : Option Item :=
  (entry.id.filter (· ≠ "")).map entry.item

theorem item?_eq_some {entry : Entry} {item : Item} :
    entry.item? = some item ↔ ∃ id, entry.id = some id ∧ id ≠ "" ∧ entry.item id = item := by
  rw [item?, Option.map_eq_some_iff]
  constructor
  · rintro ⟨id, named, rfl⟩
    obtain ⟨named, kept⟩ := Option.filter_eq_some_iff.mp named
    exact ⟨id, named, by simpa using kept, rfl⟩
  · rintro ⟨id, named, kept, rfl⟩
    exact ⟨id, Option.filter_eq_some_iff.mpr ⟨named, by simpa using kept⟩, rfl⟩

end Entry

/-- The catalog of entries in their order. -/
def ofEntries (entries : List Entry) : Catalog where
  header := ((entries.find? (·.isHeader)).map (·.header)).getD .empty
  items := (entries.filterMap (·.item?)).foldl addItem .empty

/-! ### The reader closes entries -/

namespace Reader

/-- The reader with a closed entry put to the header or the items. -/
def file (reader : Reader) (entry : Entry) : Reader :=
  { reader with entry := entry }.close

/-- The header is that of the first entry that can be one. -/
theorem header_file (reader : Reader) (entry : Entry) :
    (reader.file entry).header =
      reader.header.or (if entry.isHeader then some entry.header else none) := by
  unfold file close Entry.isHeader
  split
  · rename_i unnamed
    simp only at unnamed
    simp [unnamed]
  · rename_i empty
    simp only at empty
    cases reader.header <;> cases entry.obsolete <;> simp [empty]
  · rename_i id solid named
    simp only at named
    have other : entry.id ≠ some "" := fun same => solid (Option.some.inj (named.symm.trans same))
    simp [other]

/-- An entry with an id adds its item. -/
theorem items_file (reader : Reader) (entry : Entry) :
    (reader.file entry).items = entry.item?.toList.foldl addItem reader.items := by
  unfold file close Entry.item?
  split
  · rename_i unnamed
    simp only at unnamed
    simp [unnamed]
  · rename_i empty
    simp only at empty
    split <;> simp [empty, Option.filter]
  · rename_i id solid named
    simp only at named
    have kept : id ≠ "" := fun same => solid same
    simp [named, kept, Option.filter]

theorem entry_file (reader : Reader) (entry : Entry) : (reader.file entry).entry = .start := by
  unfold file close
  split
  · rfl
  · split <;> rfl
  · rfl

theorem header_foldl_file (reader : Reader) (entries : List Entry) :
    (entries.foldl file reader).header =
      reader.header.or ((entries.find? (·.isHeader)).map (·.header)) := by
  induction entries generalizing reader with
  | nil => simp
  | cons entry rest ih =>
    rw [List.foldl_cons, ih, header_file, Option.or_assoc, List.find?_cons]
    cases entry.isHeader <;> rfl

theorem items_foldl_file (reader : Reader) (entries : List Entry) :
    (entries.foldl file reader).items =
      (entries.filterMap (·.item?)).foldl addItem reader.items := by
  induction entries generalizing reader with
  | nil => rfl
  | cons entry rest ih =>
    rw [List.foldl_cons, ih, items_file, List.filterMap_cons]
    cases entry.item? <;> rfl

/-- A reader closes its entry as the entry by itself is closed. -/
theorem closeIf_eq (reader : Reader) (condition : Bool) :
    reader.closeIf condition =
      { (reader.entry.closing condition).1.foldl file reader with
        entry := (reader.entry.closing condition).2 } := by
  unfold closeIf Entry.closing
  cases condition
  · rfl
  · have opened : reader.close.entry = .start := entry_file reader reader.entry
    calc reader.close = { reader.close with entry := reader.close.entry } := rfl
      _ = { reader.close with entry := .start } := by rw [opened]

/-- **What a line changes for a reader is what it closes**, put to the header and the items. -/
theorem step_eq (reader : Reader) (line : Line) :
    reader.step line =
      (reader.entry.read line).map fun (closed, next) =>
        { closed.foldl file reader with entry := next } := by
  cases line with
  | blank =>
    have opened : reader.close.entry = .start := entry_file reader reader.entry
    refine congrArg Except.ok ?_
    calc reader.close = { reader.close with entry := reader.close.entry } := rfl
      _ = { reader.close with entry := .start } := by rw [opened]
  | skipped => rfl
  | comment comment =>
    rw [step, closeIf_eq]
    rfl
  | more text =>
    rw [step, Entry.read]
    cases reader.entry.current <;> rfl
  | keyword obsolete keyword text =>
    rw [step, closeIf_eq]
    rfl

theorem steps_eq (reader : Reader) (number : Nat) (lines : List (List Char)) :
    reader.steps number lines =
      (reader.entry.reads number lines).map fun (closed, next) =>
        { closed.foldl file reader with entry := next } := by
  induction lines generalizing reader number with
  | nil => rfl
  | cons line rest ih =>
    rw [steps, Entry.reads]
    cases said : Line.ofChars line with
    | error fault => rfl
    | ok words =>
      rw [Except.bind, Except.bind, step_eq]
      cases reader.entry.read words with
      | error fault => rfl
      | ok pair =>
        obtain ⟨closed, next⟩ := pair
        simp only [Except.map]
        rw [ih]
        cases next.reads (number + 1) rest with
        | error error => rfl
        | ok last =>
          simp only [Except.map, List.foldl_append, Except.ok.injEq, Reader.mk.injEq, and_true]
          constructor
          · simp only [header_foldl_file]
          · simp only [items_foldl_file]

end Reader

/-- **Reading a file is reading its entries**, and making the catalog of them. -/
theorem parseLines_eq (lines : List (List Char)) :
    parseLines lines =
      (Entry.start.reads 1 lines).map fun (closed, last) => ofEntries (closed ++ [last]) := by
  have opened : Reader.start.entry = Entry.start := rfl
  rw [parseLines, Reader.steps_eq, opened]
  cases Entry.start.reads 1 lines with
  | error error => rfl
  | ok pair =>
    obtain ⟨closed, last⟩ := pair
    refine congrArg Except.ok ?_
    have header := Reader.header_foldl_file Reader.start (closed ++ [last])
    have items := Reader.items_foldl_file Reader.start (closed ++ [last])
    rw [List.foldl_append] at header items
    exact Catalog.mk.injEq .. ▸ ⟨congrArg (·.getD .empty) header, items⟩

/-! ### The item of an id -/

/-- Of the items with one id the first live one counts, or else the first one. -/
def counting (id : String) (items : List Item) : Option Item :=
  (items.find? fun item => item.id = id && !item.obsolete).or (items.find? (·.id = id))

theorem get?_addItem (items : Items) (item : Item) (id : String) :
    (addItem items item).get? id =
      if item.id = id then
        match items.get? id with
        | none => some item
        | some known => if known.obsolete && !item.obsolete then some item else some known
      else items.get? id := by
  unfold addItem
  by_cases same : item.id = id
  · subst same
    rw [if_pos rfl]
    cases found : items.get? item.id with
    | none => simp [SortedMap.get?_insert]
    | some known =>
      dsimp only
      split
      · simp [SortedMap.get?_insert]
      · exact found
  · have other : id ≠ item.id := fun equal => same equal.symm
    rw [if_neg same]
    split
    · rw [SortedMap.get?_insert, if_neg other]
    · split
      · rw [SortedMap.get?_insert, if_neg other]
      · rfl

/-- What added items make of an id: a live item stays, an obsolete one gives way to the first live
one, and where there was none, the one that counts among the added comes in. -/
theorem get?_foldl_addItem (added : List Item) (items : Items) (id : String) :
    (added.foldl addItem items).get? id =
      match items.get? id with
      | none => counting id added
      | some known =>
        if known.obsolete then
          (added.find? fun item => item.id = id && !item.obsolete).or (some known)
        else some known := by
  induction added generalizing items with
  | nil =>
    rw [List.foldl_nil]
    cases items.get? id with
    | none => rfl
    | some known => simp
  | cons item rest ih =>
    rw [List.foldl_cons, ih, get?_addItem]
    by_cases same : item.id = id
    · rw [if_pos same]
      cases items.get? id with
      | none => cases live : item.obsolete <;> simp [counting, same, live]
      | some known =>
        cases gone : known.obsolete <;> cases live : item.obsolete <;> simp [same, live, gone]
    · rw [if_neg same]
      cases items.get? id with
      | none => simp [counting, same]
      | some known => simp [same]

/-- **The item of an id is that of its first live entry, or else of its first entry.** -/
theorem get?_ofEntries (entries : List Entry) (id : String) :
    (ofEntries entries).items.get? id = counting id (entries.filterMap (·.item?)) := by
  rw [ofEntries, get?_foldl_addItem, SortedMap.get?_empty]

theorem counting_eq_none {id : String} {items : List Item} :
    counting id items = none ↔ ∀ item ∈ items, item.id ≠ id := by
  rw [counting, Option.or_eq_none_iff, List.find?_eq_none, List.find?_eq_none]
  constructor
  · rintro ⟨-, absent⟩ item member
    simpa using absent item member
  · intro absent
    exact ⟨fun item member => by simp [absent item member],
      fun item member => by simp [absent item member]⟩

theorem id_of_counting {id : String} {items : List Item} {item : Item}
    (counted : counting id items = some item) : item ∈ items ∧ item.id = id := by
  rcases Option.or_eq_some_iff.mp counted with live | ⟨-, first⟩
  · have found := List.find?_some live
    simp only [Bool.and_eq_true, decide_eq_true_eq] at found
    exact ⟨List.mem_of_find?_eq_some live, found.1⟩
  · exact ⟨List.mem_of_find?_eq_some first, by simpa using List.find?_some first⟩

theorem exists_counting {id : String} {items : List Item} :
    (∃ item, counting id items = some item) ↔ ∃ item ∈ items, item.id = id := by
  constructor
  · rintro ⟨item, counted⟩
    exact ⟨item, id_of_counting counted⟩
  · rintro ⟨item, member, same⟩
    cases counted : counting id items with
    | none => exact absurd same (counting_eq_none.mp counted item member)
    | some other => exact ⟨other, rfl⟩

/-- An item that alone has its id counts. -/
theorem counting_of_unique {items : List Item} {item : Item} (member : item ∈ items)
    (unique : ∀ other ∈ items, other.id = item.id → other = item) :
    counting item.id items = some item := by
  cases counted : counting item.id items with
  | none => exact absurd rfl (counting_eq_none.mp counted item member)
  | some other =>
    obtain ⟨inside, same⟩ := id_of_counting counted
    rw [unique other inside same]

/-! ### Lines that can be read -/

namespace Entry

/-- Lines can be read wherever they stand: they close entries and leave one open. -/
def Reads (entry : Entry) (lines : List (List Char)) (closed : List Entry) (last : Entry) : Prop :=
  ∀ number, entry.reads number lines = .ok (closed, last)

theorem reads_append (entry : Entry) (number : Nat) (first second : List (List Char)) :
    entry.reads number (first ++ second) =
      (entry.reads number first).bind fun (closed, next) =>
        (next.reads (number + first.length) second).map fun (others, last) =>
          (closed ++ others, last) := by
  induction first generalizing entry number with
  | nil =>
    simp only [List.nil_append, reads, Except.bind, List.length_nil, Nat.add_zero]
    cases entry.reads number second <;> rfl
  | cons line rest ih =>
    rw [List.cons_append, reads, reads]
    cases (Line.ofChars line).bind entry.read with
    | error fault => rfl
    | ok pair =>
      obtain ⟨closed, next⟩ := pair
      dsimp only
      rw [ih, List.length_cons, Nat.add_comm rest.length 1, ← Nat.add_assoc]
      cases next.reads (number + 1) rest with
      | error error => rfl
      | ok pair =>
        obtain ⟨others, after⟩ := pair
        simp only [Except.bind, Except.map]
        cases after.reads (number + 1 + rest.length) second with
        | error error => rfl
        | ok last => simp

/-- Lines that can be read in one place can be read in every place. -/
theorem reads_eq_ok_iff {entry last : Entry} {number : Nat} {lines : List (List Char)}
    {closed : List Entry} :
    entry.reads number lines = .ok (closed, last) ↔ entry.Reads lines closed last := by
  refine ⟨fun here => ?_, fun all => all number⟩
  induction lines generalizing entry number closed with
  | nil => exact fun other => here
  | cons line rest ih =>
    intro other
    rw [reads] at here ⊢
    cases said : (Line.ofChars line).bind entry.read with
    | error fault => simp [said] at here
    | ok pair =>
      obtain ⟨first, next⟩ := pair
      rw [said] at here
      dsimp only at here ⊢
      cases later : next.reads (number + 1) rest with
      | error error => simp [later, Except.map] at here
      | ok pair =>
        obtain ⟨others, after⟩ := pair
        rw [later] at here
        cases here
        rw [ih later (other + 1)]
        rfl

namespace Reads

variable {entry next last : Entry} {closed others : List Entry} {line : List Char}
  {lines rest : List (List Char)}

theorem nil (entry : Entry) : entry.Reads [] [] entry := fun _ => rfl

theorem append (first : entry.Reads lines closed next) (second : next.Reads rest others last) :
    entry.Reads (lines ++ rest) (closed ++ others) last := fun number => by
  rw [reads_append, first number]
  simp only [Except.bind, second (number + lines.length)]
  rfl

theorem single {words : Line} (said : Line.ofChars line = .ok words)
    (taken : entry.read words = .ok (closed, next)) : entry.Reads [line] closed next :=
  fun number => by simp [reads, said, taken, Except.bind, Except.map]

/-- Lines after which no entry is closed. -/
theorem append_open (first : entry.Reads lines [] next) (second : next.Reads rest others last) :
    entry.Reads (lines ++ rest) others last :=
  first.append second

/-- What is read of lines is read of the first of them and then of the others. -/
theorem of_append (all : entry.Reads (lines ++ rest) closed last) :
    ∃ first next others, entry.Reads lines first next ∧ next.Reads rest others last ∧
      closed = first ++ others := by
  have here := all 0
  rw [reads_append] at here
  cases early : entry.reads 0 lines with
  | error error => simp [early, Except.bind] at here
  | ok pair =>
    obtain ⟨first, next⟩ := pair
    rw [early] at here
    simp only [Except.bind] at here
    cases late : next.reads (0 + lines.length) rest with
    | error error =>
      rw [late] at here
      cases here
    | ok pair =>
      obtain ⟨others, after⟩ := pair
      rw [late] at here
      cases here
      exact ⟨first, next, others, reads_eq_ok_iff.mp early, reads_eq_ok_iff.mp late, rfl⟩

/-- What is read of a line is what the line says. -/
theorem of_single (all : entry.Reads [line] closed last) :
    ∃ words, Line.ofChars line = .ok words ∧ entry.read words = .ok (closed, last) := by
  have here := all 0
  rw [reads] at here
  cases said : Line.ofChars line with
  | error fault => simp [said, Except.bind] at here
  | ok words =>
    cases taken : entry.read words with
    | error fault => simp [said, taken, Except.bind] at here
    | ok pair =>
      simp only [said, taken, Except.bind, reads, Except.map, List.append_nil, Except.ok.injEq] at here
      exact ⟨words, rfl, here ▸ taken⟩

theorem unique {after : Entry} (all : entry.Reads lines closed last)
    (again : entry.Reads lines others after) : closed = others ∧ last = after := by
  have same := (all 0).symm.trans (again 0)
  cases same
  exact ⟨rfl, rfl⟩

/-- **A file whose lines can be read is the catalog of its entries.** -/
theorem parseLines_eq (all : Entry.start.Reads lines closed last) :
    parseLines lines = .ok (ofEntries (closed ++ [last])) := by
  rw [Catalog.parseLines_eq, all 1]
  rfl

end Reads

end Entry

/-- A file that can be read is the catalog of its entries. -/
theorem reads_of_parseLines {lines : List (List Char)} {catalog : Catalog}
    (parsed : parseLines lines = .ok catalog) :
    ∃ closed last, Entry.start.Reads lines closed last ∧ catalog = ofEntries (closed ++ [last]) := by
  rw [parseLines_eq] at parsed
  cases found : Entry.start.reads 1 lines with
  | error error => simp [found, Except.map] at parsed
  | ok pair =>
    obtain ⟨closed, last⟩ := pair
    rw [found] at parsed
    cases parsed
    exact ⟨closed, last, Entry.reads_eq_ok_iff.mp found, rfl⟩

end Localization.Catalog

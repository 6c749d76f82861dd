import Localization.Catalog.Header
import Localization.Catalog.Item
import Localization.Catalog.Line

/-
**Reading catalog files.**

A catalog file is read line by line. Comments and strings gather in an entry; a blank line, the end
of the file, or a line that can only belong to the next entry closes it. The first live entry with
an empty id is the header. Of several entries for one id the first live one counts, and without a
live one the first.

* `Entry`, `Reader` — what has been read of the current entry, and of the file.
* `Reader.step` — what one more line changes.
* `parse` — reads a file, or finds the first line that is at fault.
-/

namespace Localization

/-- A catalog: a header and items. -/
structure Catalog where
  header : Header
  items : Items
  deriving DecidableEq

namespace Catalog

/-- The catalog that holds nothing. -/
def empty : Catalog := ⟨.empty, .empty⟩

/-- A line at fault, counted from one. -/
structure ParseError where
  line : Nat
  fault : Fault
  deriving DecidableEq, Repr

/-- The wording of an error with its line. -/
def ParseError.message (error : ParseError) : String :=
  s!"line {error.line}: {error.fault.message}"

/-- What has been read of an entry. -/
structure Entry where
  comments : List String := []
  extracted : List String := []
  references : SortedSet Reference := .empty
  flags : List String := []
  fuzzy : Bool := false
  obsolete : Bool := false
  id : Option String := none
  pluralId : Option String := none
  localized : Option String := none
  /-- The plural forms with their indexes, as they come. -/
  forms : List (Nat × String) := []
  /-- The keyword whose string may go on. -/
  current : Option Keyword := none
  deriving DecidableEq

namespace Entry

/-- The entry before its first line. -/
def start : Entry := {}

/-- A keyword of the entry has been read. -/
def hasKeywords (entry : Entry) : Bool :=
  entry.id.isSome || entry.current.isSome

/-- The entry with one more comment. -/
def addComment (entry : Entry) : Comment → Entry
  | .extracted text => { entry with extracted := entry.extracted ++ [String.ofList text] }
  | .references places =>
    { entry with
      references := places.foldl (fun set place => set.insert place ()) entry.references }
  | .flags fuzzy others =>
    { entry with fuzzy := entry.fuzzy || fuzzy, flags := entry.flags ++ others }
  | .translator text => { entry with comments := entry.comments ++ [String.ofList text] }
  | .dropped => entry

/-- The entry with the string of a keyword; a context is read over. -/
def setString (entry : Entry) (keyword : Keyword) (text : String) : Entry :=
  let entry := { entry with current := some keyword }
  match keyword with
  | .context => entry
  | .id => { entry with id := some text }
  | .pluralId => { entry with pluralId := some text }
  | .localized => { entry with localized := some text }
  | .form index => { entry with forms := entry.forms ++ [(index, text)] }

/-- More text for the first form of an index. -/
def extendForm (index : Nat) (text : String) : List (Nat × String) → List (Nat × String)
  | [] => []
  | (other, old) :: rest =>
    if other = index then (other, old ++ text) :: rest
    else (other, old) :: extendForm index text rest

/-- The entry with more text for the string of a keyword. -/
def extendString (entry : Entry) (keyword : Keyword) (text : String) : Entry :=
  match keyword with
  | .context => entry
  | .id => { entry with id := entry.id.map (· ++ text) }
  | .pluralId => { entry with pluralId := entry.pluralId.map (· ++ text) }
  | .localized => { entry with localized := entry.localized.map (· ++ text) }
  | .form index => { entry with forms := extendForm index text entry.forms }

/-- The plural forms in the order of their indexes; forms of one index stay as they came. -/
def sortedForms (entry : Entry) : List String :=
  (entry.forms.mergeSort fun first second => first.1 ≤ second.1).map (·.2)

/-- The item of an entry with the given id. -/
def item (entry : Entry) (id : String) : Item where
  id := id
  plural := entry.pluralId
  references := entry.references
  localized := entry.localized.filter (· ≠ "")
  forms := entry.sortedForms
  extracted := entry.extracted
  comments := entry.comments
  flags := entry.flags
  fuzzy := entry.fuzzy
  obsolete := entry.obsolete

/-- The header of an entry without an id. -/
def header (entry : Entry) : Header where
  comments := entry.comments
  fields := Header.fieldsOfText (entry.localized.getD "")

end Entry

/-- What has been read of a file. -/
structure Reader where
  header : Option Header := none
  items : Items := .empty
  entry : Entry := .start
  deriving DecidableEq

/-- The items with one more: it counts for a new id, and if it is live in place of an obsolete
item. -/
def addItem (items : Items) (item : Item) : Items :=
  match items.get? item.id with
  | none => items.insert item.id item
  | some known => if known.obsolete && !item.obsolete then items.insert item.id item else items

namespace Reader

/-- The reader before the first line. -/
def start : Reader := {}

/-- Closes the current entry. -/
def close (reader : Reader) : Reader :=
  let closed := { reader with entry := .start }
  match reader.entry.id with
  | none => closed
  | some "" =>
    if reader.header.isNone && !reader.entry.obsolete then
      { closed with header := some reader.entry.header }
    else closed
  | some id => { closed with items := addItem reader.items (reader.entry.item id) }

/-- Closes the current entry if the condition holds. -/
def closeIf (reader : Reader) (condition : Bool) : Reader :=
  if condition then reader.close else reader

/-- The keyword can only start an entry. -/
def startsEntry : Keyword → Bool
  | .context | .id => true
  | _ => false

/-- Reads one line. -/
def step (reader : Reader) : Line → Except Fault Reader
  | .blank => .ok reader.close
  | .skipped => .ok reader
  | .comment comment =>
    let reader := reader.closeIf reader.entry.hasKeywords
    .ok { reader with entry := reader.entry.addComment comment }
  | .more text =>
    match reader.entry.current with
    | none => .error .stringWithoutKeyword
    | some keyword => .ok { reader with entry := reader.entry.extendString keyword text }
  | .keyword obsolete keyword text =>
    let reader := reader.closeIf (startsEntry keyword && reader.entry.id.isSome)
    let entry := { reader.entry with obsolete := reader.entry.obsolete || obsolete }
    .ok { reader with entry := entry.setString keyword text }

/-- Reads lines, the first of which is line `number`. -/
def steps (reader : Reader) (number : Nat) : List (List Char) → Except ParseError Reader
  | [] => .ok reader
  | line :: rest =>
    match (Line.ofChars line).bind reader.step with
    | .error fault => .error ⟨number, fault⟩
    | .ok next => next.steps (number + 1) rest

/-- The catalog that has been read. -/
def catalog (reader : Reader) : Catalog :=
  ⟨reader.close.header.getD .empty, reader.close.items⟩

end Reader

/-- Reads the lines of a catalog file. -/
def parseLines (lines : List (List Char)) : Except ParseError Catalog :=
  (Reader.start.steps 1 lines).map (·.catalog)

/-- Reads a catalog file. -/
def parse (text : String) : Except ParseError Catalog :=
  parseLines (Text.lines text.toList)

end Catalog

end Localization

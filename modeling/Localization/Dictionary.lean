import Localization.Catalog.Item
import Localization.Plural.Rules

/-
**Dictionaries: the usable texts of one culture.**

* `Dictionary.addItems` — takes in items that are neither obsolete nor fuzzy; what is there stays.
* `Dictionary.lookup?` — the text of an id.
* `Dictionary.lookupPlural?` — the plural form of an id for a count.
-/

namespace Localization

/-- The texts of one culture. -/
structure Dictionary where
  culture : String
  /-- The text of an id without regard to a count. -/
  singular : SortedMap String String
  /-- The plural forms of an id, by index. -/
  plural : SortedMap String (List String)
  rules : Plural.Rules

namespace SortedMap

variable {κ ν : Type} [StrictOrder κ]

/-- The map with a value for a key that has none. -/
def insertNew (map : SortedMap κ ν) (key : κ) (value : ν) : SortedMap κ ν :=
  if map.contains key then map else map.insert key value

end SortedMap

namespace Item

/-- The item may be shown: it is neither obsolete nor fuzzy. -/
def isUsable (item : Item) : Bool :=
  !item.obsolete && !item.fuzzy

/-- The text of an item without regard to a count: its localized text, else its first plural
form. -/
def singularText? (item : Item) : Option String :=
  item.localizedText?.or (item.forms.head?.filter (· ≠ ""))

/-- Some plural form of the item is not empty. -/
def hasForms (item : Item) : Bool :=
  item.forms.any (· ≠ "")

end Item

namespace Dictionary

/-- The dictionary without texts. -/
def empty (culture : String) (rules : Plural.Rules) : Dictionary :=
  ⟨culture, .empty, .empty, rules⟩

/-- The dictionary with the texts of a usable item, unless it has texts for the id. -/
def addItem (dictionary : Dictionary) (item : Item) : Dictionary :=
  if item.isUsable then
    { dictionary with
      singular :=
        match item.singularText? with
        | some text => dictionary.singular.insertNew item.id text
        | none => dictionary.singular
      plural :=
        if item.hasForms then dictionary.plural.insertNew item.id item.forms
        else dictionary.plural }
  else dictionary

/-- The dictionary with the texts of items, unless it has texts for their ids. -/
def addItems (dictionary : Dictionary) (items : Items) : Dictionary :=
  items.values.foldl addItem dictionary

/-- The dictionary of items. -/
def ofItems (culture : String) (rules : Plural.Rules) (items : Items) : Dictionary :=
  (empty culture rules).addItems items

/-- The number of ids with a text. -/
def size (dictionary : Dictionary) : Nat :=
  dictionary.singular.size

/-- The dictionary has no text at all. -/
def isEmpty (dictionary : Dictionary) : Bool :=
  dictionary.singular.entries.isEmpty && dictionary.plural.entries.isEmpty

/-- The text of an id. -/
def lookup? (dictionary : Dictionary) (id : String) : Option String :=
  dictionary.singular.get? id

/-- The plural form of an id for a count, or its text where it has no plural forms. An empty
form is none. -/
def lookupPlural? (dictionary : Dictionary) (id : String) (count : Int) : Option String :=
  match dictionary.plural.get? id with
  | none => dictionary.lookup? id
  | some forms => forms[dictionary.rules.form dictionary.culture count]?.filter (· ≠ "")

end Dictionary

end Localization

import Localization.Catalog.Item

/-
**Merging a language's items with a template.**

A merge takes places, comments from the sources and life from the template, and everything that
translators wrote from the language. Nothing is ever removed: an item that the template lacks
becomes obsolete.

* `Item.revived`, `Item.retired` — an item that the template has, and one that it lacks.
* `Items.merge` — the merged items, with the ids that are new and those that became obsolete.
-/

namespace Localization

namespace Item

/-- The language's item `current` for an item of the template. -/
def revived (current template : Item) : Item :=
  { current with
    references := template.references
    extracted := template.extracted
    plural := current.plural.or template.plural
    obsolete := false }

/-- The language's item, which the template lacks. -/
def retired (current : Item) : Item :=
  { current with references := .empty, obsolete := true }

end Item

/-- The outcome of a merge. -/
structure Merged where
  items : Items
  /-- The ids that the language lacked. -/
  added : List String
  /-- The ids that became obsolete. -/
  obsoleted : List String
  deriving DecidableEq

namespace SortedMap

variable {κ ν : Type} [StrictOrder κ]

/-- The entries of two maps together; where both have a key the second counts. -/
def union (first second : SortedMap κ ν) : SortedMap κ ν :=
  second.entries.foldl (fun map entry => map.insert entry.1 entry.2) first

end SortedMap

namespace Items

/-- The items of the template as the language has them. -/
def live (existing template : Items) : Items :=
  template.mapValues fun id item =>
    match existing.get? id with
    | some current => current.revived item
    | none => item.asTemplate

/-- The items that the template lacks. -/
def leftOver (existing template : Items) : Items :=
  existing.filter fun id _ => !template.contains id

/-- Merges a language's items with a template. -/
def merge (existing template : Items) : Merged where
  items := (live existing template).union
    ((leftOver existing template).mapValues fun _ item => item.retired)
  added := template.keys.filter fun id => !existing.contains id
  obsoleted :=
    ((leftOver existing template).entries.filter fun entry => !entry.2.obsolete).map (·.1)

end Items

end Localization

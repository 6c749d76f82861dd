import Localization.Reference

/-
**Items of a catalog.**

* `Item` — one message with its references, localized texts, comments and flags.
* `Item.asTemplate` — the item without what translators add, as a template holds it.
* `Items` — items by message id.
-/

namespace Localization

/-- One message of a template or of a language's catalog. -/
structure Item where
  id : String
  /-- The plural form of the id, where the message has plural forms. -/
  plural : Option String
  references : SortedSet Reference
  /-- The message in the language of the catalog. -/
  localized : Option String
  /-- The translated plural forms by their index. -/
  forms : List String
  /-- The comments taken from the sources. -/
  extracted : List String
  /-- The comments of translators. -/
  comments : List String
  /-- The flags other than the fuzzy one. -/
  flags : List String
  fuzzy : Bool
  obsolete : Bool
  deriving DecidableEq

namespace Item

/-- An item of which only the id is known. -/
def ofId (id : String) : Item where
  id := id
  plural := none
  references := .empty
  localized := none
  forms := []
  extracted := []
  comments := []
  flags := []
  fuzzy := false
  obsolete := false

/-- The localized text, if there is one that is not empty. -/
def localizedText? (item : Item) : Option String :=
  item.localized.filter (· ≠ "")

/-- The item without anything that translators add. -/
def asTemplate (item : Item) : Item :=
  { ofId item.id with
    plural := item.plural, references := item.references, extracted := item.extracted }

end Item

/-- Items by message id. -/
abbrev Items := SortedMap String Item

end Localization

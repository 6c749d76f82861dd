import Localization.Text.Blank
import Localization.Text.Pieces

/-
**Headers of catalogs.**

* `Header` — the comments and the fields above the items of a catalog.
* `Header.standard` — the header that a saved catalog gets: the standard fields, then the other
  fields of the header that it had.
* `Header.fieldsOfText` — the fields in the localized text of the header entry.
-/

namespace Localization

open Text

/-- The comments and the fields of a catalog, in their order. -/
structure Header where
  comments : List String
  fields : List (String × String)
  deriving DecidableEq, Repr

namespace Header

/-- The header of a catalog that has none. -/
def empty : Header := ⟨[], []⟩

instance : Inhabited Header := ⟨empty⟩

/-- The fields that every saved catalog has, but for the language. -/
def fixedFields : List (String × String) := [
  ("Project-Id-Version", "pot 0.1.0"),
  ("MIME-Version", "1.0"),
  ("Content-Type", "text/plain; charset=UTF-8"),
  ("Content-Transfer-Encoding", "8bit")]

/-- The name of the field that holds the language. -/
def languageField : String := "Language"

/-- Two names of fields agree but for the case of ASCII letters. -/
def sameName (first second : String) : Bool :=
  first.toList.map Char.toLower == second.toList.map Char.toLower

/-- The names of the fields that saving a catalog sets. -/
def isStandard (name : String) : Bool :=
  (fixedFields.map (·.1) ++ [languageField]).any (sameName · name)

/-- The header of a saved catalog: the standard fields, with the language unless it is a template,
and then the comments and other fields of the header that it replaces. -/
def standard (language : Option String) (existing : Header) : Header where
  comments := existing.comments
  fields := fixedFields ++ language.toList.map (languageField, ·) ++
    existing.fields.filter fun field => !isStandard field.1

/-- The value of the first field of a name. -/
def get? (header : Header) (name : String) : Option String :=
  (header.fields.find? fun field => sameName field.1 name).map (·.2)

/-- The field on a line: a name that is not blank, a colon, and a value. -/
def field? (line : List Char) : Option (String × String) := do
  let (name, value) ← cut (· = ':') line
  if (trim name).isEmpty then none
  else some (String.ofList (trim name), String.ofList (trim value))

/-- The fields in the localized text of the header entry. -/
def fieldsOfText (text : String) : List (String × String) :=
  (pieces (· = '\n') text.toList).filterMap field?

end Header

end Localization

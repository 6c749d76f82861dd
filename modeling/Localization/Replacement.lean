import Localization.Dictionary
import Localization.Message.Identifiers
import Localization.Message.Template
import Localization.Nugget.Scanner

/-
**Replacing the nuggets of a text by their localized texts.**

* `Nugget.count?` — the count that chooses a plural form: the first parameter, if it is a number.
* `Nugget.resolve` — the text that takes the place of a nugget.
* `Markup.replace` — a text with every nugget resolved and all else as it is.
-/

namespace Localization

open Text

/-- A width that cannot be laid out, which stops the program. -/
structure Overwide where
  width : Nat
  deriving DecidableEq, Repr

namespace Nugget

/-- What follows a message whose parameters cannot be filled in. -/
def formatMarker : String := "[FORMAT EXCEPTION]"

/-- The count that chooses a plural form: the first parameter, if it is a number. -/
def count? (nugget : Nugget) : Option Int :=
  nugget.items.head?.bind fun item => Decimal.signedWord? (trim item.toList)

/-- The localized text of a nugget, by its count if it has one. -/
def localized? (nugget : Nugget) (dictionary : Dictionary) : Option String :=
  match nugget.count? with
  | some count => dictionary.lookupPlural? nugget.id count
  | none => dictionary.lookup? nugget.id

/-- The parameters filled into a message; where that cannot be done, the message with a marker. -/
def fillIn (message : String) (items : List String) : Except Overwide String :=
  let template := Message.normalize message
  match Message.format template items with
  | .ok text => .ok text
  | .error (.error _) => .ok (template ++ formatMarker)
  | .error (.overwide width) => .error ⟨width⟩

/-- The text that takes the place of a nugget: its localized text, else its id, with the parameters
filled in. -/
def resolve (nugget : Nugget) (dictionary : Dictionary) : Except Overwide String :=
  let message := (nugget.localized? dictionary).getD nugget.id
  if nugget.isFormatted then fillIn message nugget.items else .ok message

end Nugget

namespace Markup

/-- The plain parts and the resolved nuggets in order, and the plain text after the last nugget. -/
def replaceParts (dictionary : Dictionary) (tail : List Char) :
    List (List Char × Capture) → Except Overwide (List Char)
  | [] => .ok tail
  | (before, capture) :: rest => do
    let text ← capture.nugget.resolve dictionary
    let others ← replaceParts dictionary tail rest
    .ok (before ++ text.toList ++ others)

/-- A text with every nugget resolved and all else as it is. -/
def replace (markup : Markup) (dictionary : Dictionary) (text : String) :
    Except Overwide String :=
  (replaceParts dictionary (markup.tail text.toList) (markup.found text.toList)).map String.ofList

end Markup

end Localization

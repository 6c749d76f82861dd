import Localization.Catalog.Reader

/-
**Writing catalog files.**

A file starts with the header; then come the live items and after them the obsolete ones, each in
the order of ids and after a blank line. The keywords of obsolete items stand behind a mark. A text
with newlines is written below its keyword, one string per line of the text.

* `Catalog.itemLines`, `Catalog.lines` — the lines of an item and of a file.
* `Catalog.render` — the text of a file.
-/

namespace Localization

open Text

namespace Catalog

/-- A comment line of the kind that `mark` stands for. -/
def commentLine (mark : List Char) (comment : String) : List Char :=
  if comment = "" then mark else mark ++ ' ' :: comment.toList

/-- The parts of a text after each newline, the newlines included. -/
def segments : List Char → List (List Char)
  | [] => []
  | c :: rest =>
    if c = '\n' then ['\n'] :: segments rest
    else
      match segments rest with
      | [] => [[c]]
      | first :: others => (c :: first) :: others

/-- The lines of a keyword and its string, each behind `mark`. -/
def stringLines (mark : List Char) (keyword : Keyword) (text : String) : List (List Char) :=
  if '\n' ∈ text.toList then
    (mark ++ keyword.chars ++ ' ' :: Quoted.quote []) ::
      (segments text.toList).map (mark ++ Quoted.quote ·)
  else [mark ++ keyword.chars ++ ' ' :: Quoted.quote text.toList]

/-- The flags as they are written, the fuzzy one first. -/
def flagNames (item : Item) : List String :=
  (if item.fuzzy then [fuzzyFlag] else []) ++ item.flags

/-- The flags line, if there is a flag. -/
def flagLines (item : Item) : List (List Char) :=
  match flagNames item with
  | [] => []
  | names => [['#', ','] ++ ' ' :: (", ".intercalate names).toList]

/-- The comment lines of an item. -/
def commentLines (item : Item) : List (List Char) :=
  item.comments.map (commentLine ['#']) ++
    item.extracted.map (commentLine ['#', '.']) ++
    item.references.keys.map (fun place => ['#', ':', ' '] ++ referenceChars place) ++
    flagLines item

/-- The mark behind which the keywords of an item stand. -/
def markOf (item : Item) : List Char :=
  if item.obsolete then obsoleteMark ++ [' '] else []

/-- The lines of plural forms from an index on. -/
def formLines (mark : List Char) (index : Nat) : List String → List (List Char)
  | [] => []
  | form :: rest => stringLines mark (.form index) form ++ formLines mark (index + 1) rest

/-- The lines of the localized text of an item: its plural forms if the id has a plural, at least
one of them, and else its one text. -/
def localizedLines (item : Item) : List (List Char) :=
  match item.plural with
  | none => stringLines (markOf item) .localized (item.localized.getD "")
  | some plural =>
    stringLines (markOf item) .pluralId plural ++
      formLines (markOf item) 0 (if item.forms.isEmpty then [""] else item.forms)

/-- The lines of an item. -/
def itemLines (item : Item) : List (List Char) :=
  commentLines item ++ stringLines (markOf item) .id item.id ++ localizedLines item

/-- The line of a field of the header. -/
def fieldLine (field : String × String) : List Char :=
  Quoted.quote (field.1.toList ++ ':' :: ' ' :: field.2.toList ++ ['\n'])

/-- The lines of a header. -/
def headerLines (header : Header) : List (List Char) :=
  header.comments.map (commentLine ['#']) ++
    [Keyword.id.chars ++ ' ' :: Quoted.quote [],
      Keyword.localized.chars ++ ' ' :: Quoted.quote []] ++
    header.fields.map fieldLine

/-- The items in the order in which they are written: live ones first. -/
def writtenItems (items : Items) : List Item :=
  items.values.filter (!·.obsolete) ++ items.values.filter (·.obsolete)

/-- The lines of a catalog file. -/
def lines (catalog : Catalog) : List (List Char) :=
  headerLines catalog.header ++
    (writtenItems catalog.items).flatMap fun item => [] :: itemLines item

/-- The text of a catalog file. -/
def renderChars (catalog : Catalog) : List Char :=
  catalog.lines.flatMap (· ++ ['\n'])

/-- The text of a catalog file. -/
def render (catalog : Catalog) : String :=
  String.ofList catalog.renderChars

end Catalog

end Localization

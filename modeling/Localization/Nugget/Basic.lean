import Localization.Nugget.Tokens
import Localization.Text.Utf8

/-
**Nuggets: messages marked in a text.**

* `Nugget` — the message id, the parameters and the comment of one nugget.
* `Capture` — what the scanner took out of the text; `Capture.source` writes it again.
* `Span`, `NuggetError` — where a nugget stands, and what is wrong with one in a source file.
-/

namespace Localization

open Text

/-- A message marked in a text, with the parameters of its placeholders. -/
structure Nugget where
  id : String
  items : List String
  comment : Option String
  deriving DecidableEq, Repr

/-- The nugget carries parameters for its message. -/
def Nugget.isFormatted (nugget : Nugget) : Bool :=
  !nugget.items.isEmpty

/-- A range of bytes in a text. -/
structure Span where
  start : Nat
  stop : Nat
  deriving DecidableEq, Repr

/-- Whether a text is a source file, where empty captures are mistakes, or a page to be served,
where they are not. -/
inductive Purpose where
  | source
  | response
  deriving DecidableEq, Repr

/-- The mistakes in the markup of a source file. -/
inductive NuggetError where
  | emptyId (span : Span)
  | emptyItem (id : String) (index : Nat) (span : Span)
  deriving DecidableEq, Repr

namespace NuggetError

/-- Where the mistake stands. -/
def span : NuggetError → Span
  | emptyId span => span
  | emptyItem _ _ span => span

/-- The wording of a mistake. -/
def message : NuggetError → String
  | emptyId span => s!"Nugget at bytes {span.start}..{span.stop} has an empty message id"
  | emptyItem id index span =>
    s!"Nugget '{id}' at bytes {span.start}..{span.stop} has an empty parameter at position {index}"

end NuggetError

/-- The captures of one nugget, as they stand between its tokens. -/
structure Capture where
  id : List Char
  items : List (List Char)
  /-- The text after the comment token, where there is one. -/
  comment : Option (List Char)
  deriving DecidableEq, Repr

namespace Capture

/-- The parameters as written, each after its delimiter. -/
def itemsSource (markup : Markup) (items : List (List Char)) : List Char :=
  items.flatMap (markup.delimiter ++ ·)

/-- The comment as written, after its token. -/
def commentSource (markup : Markup) : Option (List Char) → List Char
  | none => []
  | some comment => markup.comment ++ comment

/-- The text of a nugget, from its opening to its closing token. -/
def source (markup : Markup) (capture : Capture) : List Char :=
  markup.opening ++ capture.id ++ itemsSource markup capture.items ++
    commentSource markup capture.comment ++ markup.closing

/-- The nugget that the captures make up; an empty comment is none. -/
def nugget (capture : Capture) : Nugget where
  id := String.ofList capture.id
  items := capture.items.map String.ofList
  comment := (capture.comment.filter (!·.isEmpty)).map String.ofList

/-- What is wrong with the captures in a source file: an empty id, or the first empty parameter. -/
def problem? (capture : Capture) (span : Span) : Option NuggetError :=
  if capture.id.isEmpty then some (.emptyId span)
  else (capture.items.findIdx? (·.isEmpty)).map (.emptyItem (String.ofList capture.id) · span)

end Capture

end Localization

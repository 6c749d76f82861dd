import Localization.Text.Blank
import Localization.Text.Decimal
import Localization.Text.Pieces
import Localization.Text.Utf8

/-
**Templates with ordinal placeholders: `{0}`, `{1,-8}`, `{2:N2}`.**

A placeholder names an argument by its position. A comma introduces the least width of the text, a
minus sign before the width puts the padding behind, and a clause after a colon is ignored. Doubled
braces stand for single ones.

* `FormatError`, `FormatFailure` — why a template cannot be filled in; a width beyond the limit stops the
  program.
* `format` — fills in a template.
-/

namespace Localization.Message

open Text

/-- Why a template cannot be filled in. -/
inductive FormatError where
  | unbalancedBrace (brace : Char) (position : Nat)
  | invalidPlaceholder (placeholder : String) (position : Nat)
  | indexOutOfRange (index count : Nat)
  deriving DecidableEq, Repr

/-- The wording of an error. -/
def FormatError.message : FormatError → String
  | unbalancedBrace brace position => s!"Unmatched '{brace}' at byte {position}"
  | invalidPlaceholder placeholder position =>
    s!"Invalid placeholder '\x7b{placeholder}\x7d' at byte {position}"
  | indexOutOfRange index count =>
    s!"Placeholder \x7b{index}\x7d refers past the {count} supplied argument(s)"

/-- How filling in a template fails: with an error to report, or by a width that cannot be laid
out at all, which stops the program. -/
inductive FormatFailure where
  | error (cause : FormatError)
  | overwide (width : Nat)
  deriving DecidableEq, Repr

/-- The largest width that can be laid out. -/
def widthLimit : Nat := 65535

/-- The side of a text on which padding goes. -/
inductive Padding where
  | before
  | behind
  deriving DecidableEq, Repr

/-- A text of at least the given width, filled up with spaces. -/
def pad (padding : Padding) (width : Nat) (text : List Char) : List Char :=
  let filling := List.replicate (width - text.length) ' '
  match padding with
  | .before => filling ++ text
  | .behind => text ++ filling

/-- The parts of a placeholder: its index, and its width with the padding, where it has one. -/
def placeholderParts (placeholder : List Char) : List Char × Option (Padding × List Char) :=
  let clauseless := ((cut (· = ':') placeholder).map (·.1)).getD placeholder
  match cut (· = ',') clauseless with
  | none => (trim clauseless, none)
  | some (index, alignment) =>
    match trim alignment with
    | '-' :: width => (trim index, some (.behind, width))
    | width => (trim index, some (.before, width))

/-- The text that takes the place of a placeholder at byte `position`. -/
def expand (arguments : List (List Char)) (position : Nat) (placeholder : List Char) :
    Except FormatFailure (List Char) :=
  let invalid := .error (.error (.invalidPlaceholder (String.ofList placeholder) position))
  let (index, alignment) := placeholderParts placeholder
  match Decimal.word? index with
  | none => invalid
  | some index =>
    match arguments[index]? with
    | none => .error (.error (.indexOutOfRange index arguments.length))
    | some argument =>
      match alignment with
      | none => .ok argument
      | some (padding, width) =>
        match Decimal.word? width with
        | none => invalid
        | some width =>
          if widthLimit < width then .error (.overwide width) else .ok (pad padding width argument)

/-- Fills in a template that starts at byte `position`. -/
def formatFrom (arguments : List (List Char)) (position : Nat) :
    List Char → Except FormatFailure (List Char)
  | [] => .ok []
  | '{' :: '{' :: rest => (formatFrom arguments (position + 2) rest).map ('{' :: ·)
  | '{' :: rest =>
    match _parts : cut (· = '}') rest with
    | none => .error (.error (.unbalancedBrace '{' position))
    | some (placeholder, after) => do
      let text ← expand arguments position placeholder
      let others ← formatFrom arguments (position + byteLength placeholder + 2) after
      .ok (text ++ others)
  | '}' :: '}' :: rest => (formatFrom arguments (position + 2) rest).map ('}' :: ·)
  | '}' :: _ => .error (.error (.unbalancedBrace '}' position))
  | c :: rest => (formatFrom arguments (position + c.utf8Size) rest).map (c :: ·)
termination_by text => text.length
decreasing_by
  all_goals simp only [List.length_cons]
  all_goals try omega
  obtain ⟨c, _, _, source⟩ := cut_eq_some _parts
  simp only [source, List.length_append, List.length_cons]
  omega

/-- Fills in the placeholders of a template with arguments. -/
def format (template : String) (arguments : List String) : Except FormatFailure String :=
  (formatFrom (arguments.map (·.toList)) 0 template.toList).map String.ofList

end Localization.Message

import Localization.SortedMap
import Localization.Text.Decimal
import Localization.Text.Pieces

/-
**References: where in the sources a message stands.**

* `Reference.text` — the written form, `path:line`.
* `Reference.ofText` — reads it back: the line follows the last colon, and the path is not empty.
* `Reference.before` — the order in which references are written: by path, then by line.
-/

namespace Localization

/-- A place in a source file: its path in the project and a line number that starts at one. -/
structure Reference where
  path : String
  line : Nat
  deriving DecidableEq, Repr

namespace Reference

open Text

/-- A text that names no place in a source file. -/
structure Malformed where
  text : String
  deriving DecidableEq, Repr

/-- The wording for a text that names no place. -/
def Malformed.message (malformed : Malformed) : String :=
  s!"invalid reference '{malformed.text}'"

/-- The written form of a reference. -/
def chars (reference : Reference) : List Char :=
  reference.path.toList ++ ':' :: Decimal.digits reference.line

/-- The written form of a reference. -/
def text (reference : Reference) : String :=
  String.ofList reference.chars

/-- Reads a reference: a path that is not empty, the last colon, and a line number. -/
def ofChars? (text : List Char) : Option Reference := do
  let (path, line) ← cutLast (· = ':') text
  if path.isEmpty then none
  else
    let line ← Decimal.unsignedWord? line
    some ⟨String.ofList path, line⟩

/-- Reads a reference, or tells which text is none. -/
def ofText (text : String) : Except Malformed Reference :=
  match ofChars? text.toList with
  | some reference => .ok reference
  | none => .error ⟨text⟩

/-- The order of references: by path, and by line within a path. -/
def before (first second : Reference) : Prop :=
  first.path < second.path ∨ (first.path = second.path ∧ first.line < second.line)

instance : StrictOrder Reference where
  lt := before
  decide := fun first second =>
    inferInstanceAs (Decidable (first.path < second.path ∨
      (first.path = second.path ∧ first.line < second.line)))
  irrefl := by
    rintro ⟨path, line⟩ (pathBefore | ⟨-, lineBefore⟩)
    · exact String.lt_irrefl path pathBefore
    · exact Nat.lt_irrefl line lineBefore
  trans := by
    rintro ⟨firstPath, firstLine⟩ ⟨secondPath, secondLine⟩ ⟨thirdPath, thirdLine⟩
    rintro (pathBefore | ⟨rfl, lineBefore⟩) (nextPath | ⟨rfl, nextLine⟩)
    · exact .inl (String.lt_trans pathBefore nextPath)
    · exact .inl pathBefore
    · exact .inl nextPath
    · exact .inr ⟨rfl, Nat.lt_trans lineBefore nextLine⟩
  connected := by
    rintro ⟨firstPath, firstLine⟩ ⟨secondPath, secondLine⟩ notBefore notAfter
    have paths : firstPath = secondPath :=
      StrictOrder.connected (fun less => notBefore (.inl less)) (fun less => notAfter (.inl less))
    subst paths
    have lines : firstLine = secondLine :=
      StrictOrder.connected (fun less => notBefore (.inr ⟨rfl, less⟩))
        (fun less => notAfter (.inr ⟨rfl, less⟩))
    rw [lines]

end Reference

end Localization

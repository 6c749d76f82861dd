import Localization.Text.Decimal

/-
**Identifiers: `%0`, `%1`, … as placeholders.**

* `normalize` — every percent sign with the digits after it becomes a placeholder in braces, where
  the number fits 64 bits; all else stays.
-/

namespace Localization.Message

open Text

/-- What an identifier becomes: a placeholder, or itself where its number is too large or
missing. -/
def placeholder (digits : List Char) : List Char :=
  match Decimal.word? digits with
  | some number => '{' :: (Decimal.digits number ++ ['}'])
  | none => '%' :: digits

/-- Puts placeholders in the place of the identifiers of a message. -/
def normalizeChars : List Char → List Char
  | [] => []
  | c :: rest =>
    if c = '%' then
      placeholder (rest.takeWhile Decimal.isDigit) ++
        normalizeChars (rest.dropWhile Decimal.isDigit)
    else c :: normalizeChars rest
termination_by text => text.length
decreasing_by
  · have := (List.dropWhile_sublist (l := rest) Decimal.isDigit).length_le
    simp only [List.length_cons]
    omega
  · simp

/-- Puts placeholders in the place of the identifiers of a message. -/
def normalize (message : String) : String :=
  String.ofList (normalizeChars message.toList)

end Localization.Message

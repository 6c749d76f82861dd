/-
**Decimal numbers of 64 bits.**

* `value` — the number that a run of digits denotes, of any size.
* `word?` — reads an unsigned number of digits alone, within 64 bits.
* `unsignedWord?`, `signedWord?` — the readings that also allow a sign.
-/

namespace Localization.Text.Decimal

/-- The largest unsigned number of 64 bits. -/
def wordMax : Nat := (1 <<< 64) - 1

/-- The value of an ASCII digit. -/
def digit? (c : Char) : Option Nat :=
  if '0'.toNat ≤ c.toNat ∧ c.toNat ≤ '9'.toNat then some (c.toNat - '0'.toNat) else none

/-- The ASCII digits. -/
def isDigit (c : Char) : Bool :=
  (digit? c).isSome

/-- The number that a text denotes in base ten, a character that is no digit counting as zero. -/
def value (digits : List Char) : Nat :=
  digits.foldl (fun total c => total * 10 + (digit? c).getD 0) 0

/-- One more digit of a number that stays within 64 bits. -/
def appendDigit? (total : Nat) (c : Char) : Option Nat := do
  let digit ← digit? c
  let next := total * 10 + digit
  if next ≤ wordMax then some next else none

/-- Reads an unsigned number of 64 bits: digits alone, at least one of them. -/
def word? (text : List Char) : Option Nat :=
  if text.isEmpty then none else text.foldlM appendDigit? 0

/-- Reads an unsigned number of 64 bits that a plus sign may precede. -/
def unsignedWord? : List Char → Option Nat
  | '+' :: digits => word? digits
  | text => word? text

/-- Reads a signed number of 64 bits in two's complement range, with an optional sign. -/
def signedWord? : List Char → Option Int
  | '-' :: digits => do
    let size ← word? digits
    if size ≤ 1 <<< 63 then some (-(size : Int)) else none
  | text => do
    let size ← unsignedWord? text
    if size < 1 <<< 63 then some (size : Int) else none

/-- The decimal digits of a number, without leading zeros. -/
def digits (number : Nat) : List Char :=
  Nat.toDigits 10 number

end Localization.Text.Decimal

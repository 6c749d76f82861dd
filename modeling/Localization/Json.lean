import Localization.Text.Pieces

/-
**JSON texts.**

* `Json` — a value; objects keep their members in order, and repeated names stay apart.
* `Json.parse?` — reads a text that holds one value and nothing else.

Reading follows the documented behaviour of a JSON library that is not part of the program's sources. An
escape may name half of a surrogate pair. Such a string has no text, which is a mistake only for those
who ask for it.
-/

namespace Localization

/-- A unit of a string: a character, or a code that an escape names. -/
inductive Json.Unit16 where
  | plain (c : Char)
  | escaped (code : Nat)
  deriving DecidableEq, Repr

/-- A value of JSON. -/
inductive Json where
  | null
  | bool (value : Bool)
  /-- A number as it is written. -/
  | number (digits : List Char)
  | string (units : List Json.Unit16)
  | array (elements : List Json)
  | object (members : List (List Json.Unit16 × Json))

namespace Json

/-- The characters of a string; half of a surrogate pair is none. -/
def text? : List Unit16 → Option (List Char)
  | [] => some []
  | .plain c :: rest => (text? rest).map (c :: ·)
  | .escaped code :: rest =>
    if 0xD800 ≤ code ∧ code < 0xDC00 then
      match rest with
      | .escaped low :: others =>
        if 0xDC00 ≤ low ∧ low < 0xE000 then
          (text? others).map (Char.ofNat (0x10000 + (code - 0xD800) * 0x400 + (low - 0xDC00)) :: ·)
        else none
      | _ => none
    else if 0xDC00 ≤ code ∧ code < 0xE000 then none
    else (text? rest).map (Char.ofNat code :: ·)

/-- The white space between the parts of a value. -/
def isSpace (c : Char) : Bool :=
  c = ' ' || c = '\n' || c = '\t' || c = '\r'

/-- A text without its leading white space. -/
def skip (text : List Char) : List Char := text.dropWhile isSpace

/-- The value of a hexadecimal digit. -/
def hexDigit? (c : Char) : Option Nat :=
  if '0' ≤ c ∧ c ≤ '9' then some (c.toNat - '0'.toNat)
  else if 'a' ≤ c ∧ c ≤ 'f' then some (c.toNat - 'a'.toNat + 10)
  else if 'A' ≤ c ∧ c ≤ 'F' then some (c.toNat - 'A'.toNat + 10)
  else none

/-- The value of four hexadecimal digits. -/
def hexCode? (digits : List Char) : Option Nat :=
  digits.foldlM (fun total c => (hexDigit? c).map (total * 16 + ·)) 0

/-- The character that stands behind a backslash for another. -/
def escape? : Char → Option Char
  | '"' => some '"'
  | '\\' => some '\\'
  | '/' => some '/'
  | 'b' => some '\x08'
  | 'f' => some '\x0c'
  | 'n' => some '\n'
  | 'r' => some '\r'
  | 't' => some '\t'
  | _ => none

/-- Reads a string from behind its first quote. -/
def string? : List Char → Option (List Unit16 × List Char)
  | [] => none
  | '"' :: rest => some ([], rest)
  | '\\' :: 'u' :: a :: b :: c :: d :: rest => do
    let code ← hexCode? [a, b, c, d]
    let (units, after) ← string? rest
    some (.escaped code :: units, after)
  | '\\' :: c :: rest => do
    let meaning ← escape? c
    let (units, after) ← string? rest
    some (.plain meaning :: units, after)
  | c :: rest =>
    if c = '\\' || c.toNat < 0x20 then none
    else do
      let (units, after) ← string? rest
      some (.plain c :: units, after)

/-- The digits at the head of a text, at least one, and the rest. -/
def digits? (text : List Char) : Option (List Char × List Char) :=
  let digits := text.takeWhile Char.isDigit
  if digits.isEmpty then none else some (digits, text.dropWhile Char.isDigit)

/-- The whole part of a number: no digit follows a leading zero. -/
def whole? (text : List Char) : Option (List Char × List Char) := do
  let (digits, rest) ← digits? text
  if digits.head? = some '0' && digits.length ≠ 1 then none else some (digits, rest)

/-- The fraction of a number, which may be missing. -/
def fraction? : List Char → Option (List Char × List Char)
  | '.' :: rest => (digits? rest).map fun (digits, after) => ('.' :: digits, after)
  | text => some ([], text)

/-- The exponent of a number, which may be missing. -/
def exponent? : List Char → Option (List Char × List Char)
  | c :: rest =>
    if c = 'e' || c = 'E' then
      match rest with
      | sign :: after =>
        if sign = '+' || sign = '-' then
          (digits? after).map fun (digits, last) => (c :: sign :: digits, last)
        else (digits? rest).map fun (digits, last) => (c :: digits, last)
      | [] => none
    else some ([], c :: rest)
  | [] => some ([], [])

/-- Reads a number. -/
def number? (text : List Char) : Option (List Char × List Char) := do
  let (sign, unsigned) := match text with
    | '-' :: rest => (['-'], rest)
    | text => ([], text)
  let (whole, rest) ← whole? unsigned
  let (fraction, rest) ← fraction? rest
  let (exponent, rest) ← exponent? rest
  some (sign ++ whole ++ fraction ++ exponent, rest)

/-- Reads a word that stands for a value. -/
def word? (word : String) (value : Json) (text : List Char) : Option (Json × List Char) :=
  (Text.dropToken? word.toList text).map (value, ·)

mutual

/-- Reads a value; `fuel` bounds the parts that are read. -/
def value? (fuel : Nat) (text : List Char) : Option (Json × List Char) :=
  match fuel with
  | 0 => none
  | fuel + 1 =>
    match skip text with
    | [] => none
    | '{' :: rest =>
      match skip rest with
      | '}' :: after => some (.object [], after)
      | rest => (members? fuel rest).map fun (members, after) => (.object members, after)
    | '[' :: rest =>
      match skip rest with
      | ']' :: after => some (.array [], after)
      | rest => (elements? fuel rest).map fun (elements, after) => (.array elements, after)
    | '"' :: rest => (string? rest).map fun (units, after) => (.string units, after)
    | 'n' :: rest => word? "null" .null ('n' :: rest)
    | 't' :: rest => word? "true" (.bool true) ('t' :: rest)
    | 'f' :: rest => word? "false" (.bool false) ('f' :: rest)
    | text => (number? text).map fun (digits, after) => (.number digits, after)

/-- Reads the elements of an array, at least one, and its closing bracket. -/
def elements? (fuel : Nat) (text : List Char) : Option (List Json × List Char) :=
  match fuel with
  | 0 => none
  | fuel + 1 => do
    let (element, rest) ← value? fuel text
    match skip rest with
    | ',' :: after => do
      let (others, last) ← elements? fuel after
      some (element :: others, last)
    | ']' :: after => some ([element], after)
    | _ => none

/-- Reads the members of an object, at least one, and its closing brace. -/
def members? (fuel : Nat) (text : List Char) : Option (List (List Unit16 × Json) × List Char) :=
  match fuel with
  | 0 => none
  | fuel + 1 =>
    match skip text with
    | '"' :: rest => do
      let (name, rest) ← string? rest
      match skip rest with
      | ':' :: rest => do
        let (value, rest) ← value? fuel rest
        match skip rest with
        | ',' :: after => do
          let (others, last) ← members? fuel after
          some ((name, value) :: others, last)
        | '}' :: after => some ([(name, value)], after)
        | _ => none
      | _ => none
    | _ => none

end

/-- Reads a text that holds one value and nothing else. Every part of a value takes a character, so
that the length of the text bounds their number. -/
def parse? (text : List Char) : Option Json := do
  let (value, rest) ← value? (text.length + 1) text
  if (skip rest).isEmpty then some value else none

end Json

end Localization

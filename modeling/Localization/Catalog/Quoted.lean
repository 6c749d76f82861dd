/-
**Quoted strings.**

A quoted string stands between double quotes; a backslash introduces a backslash, a quote, a newline
`n`, a tab `t` or a carriage return `r`, and no other character.

* `encode`, `decode` — the text between the quotes, and back.
* `quote`, `unquote` — the same with the quotes; `unquote_quote` is the round trip.
-/

namespace Localization.Quoted

/-- What is wrong with a quoted string. -/
inductive Fault where
  | malformed (text : String)
  | unknownEscape (escaped : Char)
  | openEscape
  | strayQuote (text : String)
  deriving DecidableEq, Repr

/-- The wording of a fault. -/
def Fault.message : Fault → String
  | malformed text => s!"malformed string {text}"
  | unknownEscape escaped => "unknown escape sequence \\" ++ escaped.toString
  | openEscape => "string ends with a backslash"
  | strayQuote text => s!"unescaped quote in {text}"

/-- A character as it stands between quotes. -/
def encodeChar (c : Char) : List Char :=
  match c with
  | '\\' => ['\\', '\\']
  | '"' => ['\\', '"']
  | '\n' => ['\\', 'n']
  | '\t' => ['\\', 't']
  | '\r' => ['\\', 'r']
  | c => [c]

/-- A text as it stands between quotes. -/
def encode (text : List Char) : List Char :=
  text.flatMap encodeChar

/-- The character that stands behind a backslash for another. -/
def escape? : Char → Option Char
  | '\\' => some '\\'
  | '"' => some '"'
  | 'n' => some '\n'
  | 't' => some '\t'
  | 'r' => some '\r'
  | _ => none

/-- What is wrong between quotes. -/
inductive Flaw where
  | unknownEscape (escaped : Char)
  | openEscape
  | strayQuote
  deriving DecidableEq, Repr

/-- The text that stands encoded between quotes. -/
def decode : List Char → Except Flaw (List Char)
  | [] => .ok []
  | '"' :: _ => .error .strayQuote
  | '\\' :: [] => .error .openEscape
  | '\\' :: c :: rest =>
    match escape? c with
    | some meaning => (decode rest).map (meaning :: ·)
    | none => .error (.unknownEscape c)
  | c :: rest => (decode rest).map (c :: ·)

/-- What stands between the quotes of a text that starts and ends with one. -/
def inner? : List Char → Option (List Char)
  | '"' :: rest => if rest.getLast? = some '"' then some rest.dropLast else none
  | _ => none

/-- A text in quotes. -/
def quote (text : List Char) : List Char :=
  '"' :: (encode text ++ ['"'])

/-- The text that stands in quotes. -/
def unquote (text : List Char) : Except Fault (List Char) :=
  match inner? text with
  | none => .error (.malformed (String.ofList text))
  | some inner =>
    (decode inner).mapError fun
      | .unknownEscape c => .unknownEscape c
      | .openEscape => .openEscape
      | .strayQuote => .strayQuote (String.ofList text)

theorem decode_encodeChar (c : Char) (rest : List Char) :
    decode (encodeChar c ++ rest) = (decode rest).map (c :: ·) := by
  unfold encodeChar
  split
  · simp [decode, escape?]
  · simp [decode, escape?]
  · simp [decode, escape?]
  · simp [decode, escape?]
  · simp [decode, escape?]
  · rename_i backslash quote _ _ _
    rw [List.singleton_append, decode]
    · exact quote
    · exact fun same _ => backslash same
    · exact fun _ _ same _ => backslash same

/-- **Decoding takes an encoded text back.** -/
theorem decode_encode (text : List Char) : decode (encode text) = .ok text := by
  induction text with
  | nil => rfl
  | cons c rest ih =>
    have encoded : encode (c :: rest) = encodeChar c ++ encode rest := by simp [encode]
    rw [encoded, decode_encodeChar, ih]
    rfl

theorem inner?_quote (text : List Char) : inner? (quote text) = some (encode text) := by
  simp [inner?, quote]

/-- **Every text is read back from its quoted form.** -/
theorem unquote_quote (text : List Char) : unquote (quote text) = .ok text := by
  rw [unquote, inner?_quote]
  dsimp only
  rw [decode_encode]
  rfl

end Localization.Quoted

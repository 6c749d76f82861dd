import Localization.Text.Blank
import Localization.Text.Pieces
import Localization.Text.Utf8

/-
**Lines of a text by offset.**

Offsets count bytes, and lines are counted from one.

* `LineCounter.lineAt` — the line of an offset, found from the offset asked for before.
* `Text.lineAround` — the text of the line of an offset, trimmed.
-/

namespace Localization

/-- A place in a text, with its line. -/
structure LineCounter where
  text : List Char
  /-- What stands behind the place. -/
  rest : List Char
  offset : Nat
  line : Nat
  deriving DecidableEq, Repr

namespace LineCounter

/-- The counter at the start of a text. -/
def start (text : List Char) : LineCounter := ⟨text, text, 0, 1⟩

/-- Goes on through `rest`, which stands at `offset` in `line`, up to another offset. -/
def advance (text : List Char) (target : Nat) (offset line : Nat) : List Char → LineCounter
  | [] => ⟨text, [], offset, line⟩
  | c :: rest =>
    if offset < target then
      advance text target (offset + c.utf8Size) (if c = '\n' then line + 1 else line) rest
    else ⟨text, c :: rest, offset, line⟩

/-- The counter at an offset. It starts anew for an offset that it has passed. -/
def moveTo (counter : LineCounter) (target : Nat) : LineCounter :=
  if target < counter.offset then advance counter.text target 0 1 counter.text
  else advance counter.text target counter.offset counter.line counter.rest

/-- The line of an offset, and the counter there. -/
def lineAt (counter : LineCounter) (target : Nat) : Nat × LineCounter :=
  let moved := counter.moveTo target
  (moved.line, moved)

end LineCounter

namespace Text

/-- The characters that start before an offset and those that follow. -/
def splitBytes : Nat → List Char → List Char × List Char
  | _, [] => ([], [])
  | target, c :: rest =>
    if target = 0 then ([], c :: rest)
    else
      let (before, after) := splitBytes (target - c.utf8Size) rest
      (c :: before, after)

/-- The text of the line of an offset, trimmed. -/
def lineAround (text : List Char) (target : Nat) : List Char :=
  let (before, after) := splitBytes target text
  trim ((before.reverse.takeWhile (· ≠ '\n')).reverse ++ after.takeWhile (· ≠ '\n'))

end Text

end Localization

import Localization.Glob.Pattern
import Localization.Text.Pieces
import Localization.Text.Utf8

/-
**Matching paths against glob patterns.**

Patterns are matched against the bytes of a path, from its start to its end. The positions that a
part of a pattern can reach are kept as the rests of the path that follow them. What a pattern covers
follows the documented behaviour of a glob library that is not part of the program's sources.

* `Glob` — a pattern with its options; `Glob.ofPattern` reads one.
* `Glob.isMatch` — whether a pattern covers a path.
* `Glob.anyMatch` — whether one of several patterns does.
-/

namespace Localization

open Text

namespace Glob

/-- The byte between the parts of a path. -/
def slash : UInt8 := 0x2F

/-- The byte is covered by a range of characters. A single character covers each of its bytes. A
range also covers those from the last byte of its first end to the first byte of its last end. -/
def rangeCovers (first last : Char) (byte : UInt8) : Bool :=
  (bytes [first]).contains byte || (bytes [last]).contains byte ||
    (first != last &&
      (bytes [first]).getLast?.any (· ≤ byte) && (bytes [last]).head?.any (byte ≤ ·))

/-- The byte is covered by one of the ranges. -/
def coversByte (ranges : List (Char × Char)) (byte : UInt8) : Bool :=
  ranges.any fun (first, last) => rangeCovers first last byte

/-- All rests of a path, itself included. -/
def rests : List UInt8 → List (List UInt8)
  | [] => [[]]
  | byte :: rest => (byte :: rest) :: rests rest

/-- The rests of a path up to its first slash. -/
def restsWithinPart : List UInt8 → List (List UInt8)
  | [] => [[]]
  | byte :: rest => (byte :: rest) :: if byte = slash then [] else restsWithinPart rest

/-- The rests of a path behind its slashes. -/
def restsBehindSlashes : List UInt8 → List (List UInt8)
  | [] => []
  | byte :: rest => (if byte = slash then [rest] else []) ++ restsBehindSlashes rest

/-- The rest behind a slash at the head. -/
def behindSlash? : List UInt8 → Option (List UInt8)
  | [] => none
  | byte :: rest => if byte = slash then some rest else none

/-- The positions of two lists; one length is one position. -/
def union (first second : List (List UInt8)) : List (List UInt8) :=
  first ++ second.filter fun rest => first.all fun other => other.length != rest.length

/-- The positions that are reached from one of several. -/
def reach (step : List UInt8 → List (List UInt8)) (positions : List (List UInt8)) :
    List (List UInt8) :=
  positions.foldl (fun reached rest => union reached (step rest)) []

/-- The byte may stand for one that is not given. -/
def isWild (options : Options) (byte : UInt8) : Bool :=
  !(options.separated && byte == slash)

mutual

/-- The part covers the empty text alone. -/
def Token.isVoid : Token → Bool
  | .either branches => Token.allVoid branches
  | _ => false

/-- All parts of a pattern cover the empty text alone. -/
def Token.areVoid : List Token → Bool
  | [] => true
  | token :: rest => token.isVoid && Token.areVoid rest

/-- All branches cover the empty text alone. -/
def Token.allVoid : List (List Token) → Bool
  | [] => true
  | branch :: rest => Token.areVoid branch && Token.allVoid rest

end

mutual

/-- The positions that a part of a pattern reaches. -/
def Token.advance (options : Options) (positions : List (List UInt8)) : Token → List (List UInt8)
  | .literal c => positions.filterMap fun rest => (bytes [c]).isPrefixOf? rest
  | .any =>
    positions.filterMap fun
      | [] => none
      | byte :: rest => if isWild options byte then some rest else none
  | .star => reach (if options.separated then restsWithinPart else rests) positions
  | .leading => reach (fun rest => rest :: restsBehindSlashes rest) positions
  | .trailing => reach (fun rest => ((behindSlash? rest).map rests).getD []) positions
  | .between =>
    reach (fun rest =>
      ((behindSlash? rest).map fun inner => inner :: restsBehindSlashes inner).getD []) positions
  | .oneOf negated ranges =>
    positions.filterMap fun
      | [] => none
      | byte :: rest => if coversByte ranges byte != negated then some rest else none
  | .either branches =>
    if Token.allVoid branches then positions else Token.advanceEither options positions branches

/-- The positions that a pattern reaches. -/
def Token.advanceAll (options : Options) (positions : List (List UInt8)) :
    List Token → List (List UInt8)
  | [] => positions
  | token :: rest => Token.advanceAll options (token.advance options positions) rest

/-- The positions that some branch reaches; an empty branch does not count. -/
def Token.advanceEither (options : Options) (positions : List (List UInt8)) :
    List (List Token) → List (List UInt8)
  | [] => []
  | branch :: rest =>
    let others := Token.advanceEither options positions rest
    if Token.areVoid branch then others
    else union (Token.advanceAll options positions branch) others

end

/-- The character of a literal part. -/
def Token.literal? : Token → Option Char
  | .literal c => some c
  | _ => none

/-- The characters of a pattern of literal parts alone. -/
def literals? (tokens : List Token) : Option (List Char) :=
  tokens.mapM Token.literal?

/-- The characters are not empty and stay within one part of a path. -/
def isName (name : List Char) : Bool :=
  !name.isEmpty && !name.contains '/'

/-- The pattern is a name below any directory. -/
def isNameAnywhere : List Token → Bool
  | .leading :: rest => (literals? rest).any isName
  | _ => false

/-- The pattern asks for an extension alone. -/
def isExtension (options : Options) (tokens : List Token) : Bool :=
  let plain := match tokens with
    | .leading :: rest => some rest
    | rest => if options.separated then none else some rest
  match plain with
  | some (.star :: .literal '.' :: rest) =>
    (literals? rest).any fun letters => !letters.contains '.' && !letters.contains '/'
  | _ => false

/-- The pattern covers the paths that start with a text. -/
def isStart (options : Options) (tokens : List Token) : Bool :=
  match tokens.getLast? with
  | some .star =>
    !options.separated && (literals? tokens.dropLast).any (!·.isEmpty)
  | some .trailing => (literals? tokens.dropLast).isSome
  | _ => (literals? tokens).any (!·.isEmpty)

/-- The pattern covers the paths that end with a text. -/
def isEnd (options : Options) (tokens : List Token) : Bool :=
  let below := match tokens with
    | .leading :: rest => (rest, (rest.head?.bind Token.literal?).isSome)
    | rest => (rest, false)
  match below.1 with
  | .star :: rest =>
    !options.separated && (literals? rest).any fun letters => !letters.isEmpty && letters != ['/']
  | rest => (literals? rest).any fun letters => !letters.isEmpty && (below.2 || letters != ['/'])

/-- The pattern ends with an extension. -/
def endsWithExtension (tokens : List Token) : Bool :=
  let letters := (tokens.reverse.takeWhile fun token => (token.literal?).isSome).filterMap
    Token.literal?
  let extension := letters.takeWhile (· ≠ '.')
  extension.length < letters.length && !extension.contains '/'

/-- The pattern is decided by the name or the extension of a file alone, or after these. -/
def asksForName (options : Options) (tokens : List Token) : Bool :=
  if isNameAnywhere tokens then true
  else if (literals? tokens).any (!·.isEmpty) then false
  else if isExtension options tokens then true
  else if isStart options tokens || isEnd options tokens then false
  else endsWithExtension tokens

end Glob

/-- A pattern for paths. -/
structure Glob where
  options : Glob.Options
  tokens : List Glob.Token

/-- A text that is no pattern. -/
structure GlobError where
  pattern : String
  fault : Glob.Fault
  deriving DecidableEq, Repr

/-- The wording of an error. -/
def GlobError.message (error : GlobError) : String :=
  s!"error parsing glob '{error.pattern}': {error.fault.message}"

namespace Glob

/-- Reads a pattern. -/
def ofPattern (options : Options) (pattern : String) : Except GlobError Glob :=
  match parse options pattern with
  | .ok tokens => .ok ⟨options, tokens⟩
  | .error fault => .error ⟨pattern, fault⟩

/-- The pattern is a double star, which covers every path. -/
def isEverything (glob : Glob) : Bool :=
  match glob.tokens with
  | [.leading] => true
  | _ => false

/-- The last part of the path leads to the directory above, and is no name of a file. -/
def isNameless (path : List Char) : Bool :=
  (pieces (· == '/') path).getLast? = some ['.', '.']

/-- The pattern covers the path. A path without a name is covered by no pattern that asks for
one. -/
def isMatch (glob : Glob) (path : List Char) : Bool :=
  glob.isEverything ||
    (!(isNameless path && asksForName glob.options glob.tokens) &&
      (Token.advanceAll glob.options [bytes path] glob.tokens).contains [])

/-- One of the patterns covers the path. -/
def anyMatch (globs : List Glob) (path : List Char) : Bool :=
  globs.any (·.isMatch path)

end Glob

end Localization

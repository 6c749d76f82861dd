/-
**Glob patterns.**

`?` stands for one byte and `*` for any number of them; `**` as a whole part of a path stands for
any number of parts; `[a-z]` and `[!a-z]` stand for one byte in or outside ranges; `{a,b}` stands
for either pattern; a backslash takes the meaning from the next character. This is the documented
behaviour of a glob library that is not part of the program's sources.

* `Glob.Token` — the parts of a pattern.
* `Glob.parse` — reads a pattern, or tells why it is none.
-/

namespace Localization.Glob

/-- A part of a pattern. -/
inductive Token where
  | literal (c : Char)
  /-- One byte. -/
  | any
  /-- Any number of bytes. -/
  | star
  /-- Any number of directories at the head. -/
  | leading
  /-- A slash and everything after it. -/
  | trailing
  /-- A slash, or two with everything between. -/
  | between
  /-- A byte in the ranges, or outside of them. -/
  | oneOf (negated : Bool) (ranges : List (Char × Char))
  | either (branches : List (List Token))
  deriving Repr

/-- How patterns are read. -/
structure Options where
  /-- Wildcards do not reach over a slash. -/
  separated : Bool
  /-- A bracket that no other closes stands for itself. -/
  openBrackets : Bool
  deriving DecidableEq, Repr

/-- The patterns of settings. -/
def Options.plain : Options := ⟨false, false⟩

/-- Why a text is no pattern. -/
inductive Fault where
  | unclosedClass
  | invalidRange (first last : Char)
  | unopenedAlternates
  | unclosedAlternates
  | danglingEscape
  deriving DecidableEq, Repr

/-- The wording of a fault. -/
def Fault.message : Fault → String
  | unclosedClass => "unclosed character class; missing ']'"
  | invalidRange first last => s!"invalid range; {first} > {last}"
  | unopenedAlternates =>
    "unopened alternate group; missing '\x7b' (maybe escape '\x7d' with '[\x7d]'?)"
  | unclosedAlternates =>
    "unclosed alternate group; missing '\x7d' (maybe escape '\x7b' with '[\x7b]'?)"
  | danglingEscape => "dangling '\\'"

/-! ### Classes -/

/-- What has been read of a class. -/
structure ClassReader where
  negated : Bool := false
  /-- The opening bracket alone has been read. -/
  opened : Bool := true
  /-- No member has been read. -/
  fresh : Bool := true
  /-- A hyphen waits for the end of its range. -/
  ranged : Bool := false
  /-- The ranges, the last one in front. -/
  ranges : List (Char × Char) := []
  deriving Repr

/-- What a character makes of a class. -/
inductive ClassStep where
  | more (reader : ClassReader)
  | closed (token : Token)
  | wrong (fault : Fault)

namespace ClassReader

/-- One more member. -/
def add (reader : ClassReader) (c : Char) : ClassReader :=
  { reader with
    opened := false, fresh := false, ranged := false, ranges := (c, c) :: reader.ranges }

/-- The end of a range. -/
def extend (reader : ClassReader) (c : Char) : ClassStep :=
  match reader.ranges with
  | [] => .more (reader.add c)
  | (first, _) :: rest =>
    if c < first then .wrong (.invalidRange first c)
    else .more { reader with ranged := false, ranges := (first, c) :: rest }

/-- The class that has been read; a hyphen that waits stands for itself. -/
def token (reader : ClassReader) : Token :=
  let whole := if reader.ranged then reader.add '-' else reader
  .oneOf reader.negated whole.ranges.reverse

/-- Reads one character of a class. -/
def step (reader : ClassReader) (c : Char) : ClassStep :=
  if reader.opened && (c = '!' || c = '^') then
    .more { reader with negated := true, opened := false }
  else if c = ']' then if reader.fresh then .more (reader.add c) else .closed reader.token
  else if reader.ranged then reader.extend c
  else if c = '-' && !reader.fresh then .more { reader with ranged := true }
  else .more (reader.add c)

/-- What is wrong with the class at the head of a text. -/
def fault? (reader : ClassReader) : List Char → Option Fault
  | [] => some .unclosedClass
  | c :: rest =>
    match reader.step c with
    | .more next => next.fault? rest
    | .closed _ => none
    | .wrong fault => some fault

end ClassReader

/-! ### Patterns -/

/-- The branches of a group that are read, and the tokens of the current one, all backwards. -/
structure Frame where
  branches : List (List Token) := []
  tokens : List Token := []
  deriving Repr

/-- The current group and those around it. -/
structure Stack where
  top : Frame := {}
  outer : List Frame := []
  deriving Repr

namespace Stack

/-- One more token. -/
def push (stack : Stack) (token : Token) : Stack :=
  { stack with top := { stack.top with tokens := token :: stack.top.tokens } }

/-- The stack within a group. -/
def isNested (stack : Stack) : Bool := !stack.outer.isEmpty

/-- Starts a group. -/
def openGroup (stack : Stack) : Stack := ⟨{}, stack.top :: stack.outer⟩

/-- Starts the next branch of the group. -/
def nextBranch (stack : Stack) : Stack :=
  { stack with top := ⟨stack.top.tokens.reverse :: stack.top.branches, []⟩ }

/-- Ends the group. -/
def closeGroup? (stack : Stack) : Option Stack :=
  match stack.outer with
  | [] => none
  | frame :: rest =>
    some ((Stack.mk frame rest).push (.either stack.nextBranch.top.branches.reverse))

/-- A double star behind a slash takes the place of the slash. -/
def pushDouble (stack : Stack) (token : Token) : Stack :=
  match stack.top.tokens with
  | .leading :: _ => stack
  | .trailing :: _ => stack
  | _ :: rest => ({ stack with top := { stack.top with tokens := rest } } : Stack).push token
  | [] => stack.push token

end Stack

/-- What the next character belongs to. -/
inductive Mode where
  | plain
  | escaped
  | inClass (reader : ClassReader)

/-- What a double star stands for. -/
inductive DoubleStar where
  /-- Two stars. -/
  | stars
  /-- Directories, with the slash behind it. -/
  | directories (token : Token)
  /-- Everything below. -/
  | everything (token : Token)

/-- What a double star stands for between the character before it and the text after it. -/
def doubleStar (stack : Stack) (before : Option Char) (after : List Char) : DoubleStar :=
  if stack.top.tokens.isEmpty then
    match after with
    | [] => .everything .leading
    | c :: _ => if c = '/' then .directories .leading else .stars
  else if before = some '/' || (stack.isNested && (before = some ',' || before = some '\x7b')) then
    match after with
    | [] => .everything .trailing
    | c :: _ =>
      if stack.isNested && (c = ',' || c = '\x7d') then .everything .trailing
      else if c = '/' then .directories .between
      else .stars
  else .stars

/-- Reads a pattern from behind the character `before`. -/
def parseFrom (options : Options) (before : Option Char) (mode : Mode) (stack : Stack) :
    List Char → Except Fault Stack
  | [] =>
    match mode with
    | .plain => .ok stack
    | .escaped => .error .danglingEscape
    | .inClass _ => .error .unclosedClass
  | c :: rest =>
    match mode with
    | .escaped => parseFrom options (some c) .plain (stack.push (.literal c)) rest
    | .inClass reader =>
      match reader.step c with
      | .more next => parseFrom options (some c) (.inClass next) stack rest
      | .closed token => parseFrom options (some c) .plain (stack.push token) rest
      | .wrong fault => .error fault
    | .plain =>
      match c with
      | '?' => parseFrom options (some c) .plain (stack.push .any) rest
      | '*' =>
        match rest with
        | '*' :: after =>
          match doubleStar stack before after, after with
          | .directories token, slash :: more =>
            parseFrom options (some slash) .plain (stack.pushDouble token) more
          | .everything token, after =>
            parseFrom options (some '*') .plain (stack.pushDouble token) after
          | _, after => parseFrom options (some '*') .plain ((stack.push .star).push .star) after
        | rest => parseFrom options (some c) .plain (stack.push .star) rest
      | '[' =>
        match ({} : ClassReader).fault? rest with
        | none => parseFrom options (some c) (.inClass {}) stack rest
        | some fault =>
          if options.openBrackets && fault = .unclosedClass then
            parseFrom options (some c) .plain (stack.push (.literal c)) rest
          else .error fault
      | '\x7b' => parseFrom options (some c) .plain stack.openGroup rest
      | '\x7d' =>
        match stack.closeGroup? with
        | none => .error .unopenedAlternates
        | some closed => parseFrom options (some c) .plain closed rest
      | ',' =>
        let next := if stack.isNested then stack.nextBranch else stack.push (.literal c)
        parseFrom options (some c) .plain next rest
      | '\\' => parseFrom options (some c) .escaped stack rest
      | _ => parseFrom options (some c) .plain (stack.push (.literal c)) rest

/-- Reads a pattern. -/
def parse (options : Options) (pattern : String) : Except Fault (List Token) :=
  match parseFrom options none .plain {} pattern.toList with
  | .error fault => .error fault
  | .ok stack => if stack.isNested then .error .unclosedAlternates else .ok stack.top.tokens.reverse

end Localization.Glob

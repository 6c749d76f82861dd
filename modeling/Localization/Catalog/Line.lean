import Localization.Catalog.Quoted
import Localization.Reference
import Localization.Text.Blank

/-
**The lines of a catalog file.**

Each line is read on its own: a blank line ends an entry, a comment stands before the keywords of
an entry, a keyword starts a string, and a string alone on a line goes on with the one before.

* `Line.ofChars` — what a line says, or what is wrong with it.
* `Comment.ofChars` — what a comment line says.
* `splitReferences`, `referenceChars` — the references on a comment line, read and written.
-/

namespace Localization.Catalog

open Text

/-- The keywords that start a string. -/
inductive Keyword where
  | context
  | id
  | pluralId
  | localized
  | form (index : Nat)
  deriving DecidableEq, Repr

/-- What is wrong with a line. -/
inductive Fault where
  | noString (line : String)
  | quoting (fault : Quoted.Fault)
  | unknownKeyword (keyword : String)
  | stringWithoutKeyword
  deriving DecidableEq, Repr

/-- The wording of a fault. -/
def Fault.message : Fault → String
  | noString line => s!"expected a quoted string after '{line}'"
  | quoting fault => fault.message
  | unknownKeyword keyword => s!"unknown keyword '{keyword}'"
  | stringWithoutKeyword => "string without keyword"

/-- The written form of a keyword. -/
def Keyword.chars : Keyword → List Char
  | context => "msgctxt".toList
  | id => "msgid".toList
  | pluralId => "msgid_plural".toList
  | localized => "msgstr".toList
  | form index => "msgstr[".toList ++ Decimal.digits index ++ [']']

/-- The index between the brackets of a form's keyword. -/
def formIndex? (word : List Char) : Option Nat := do
  let index ← dropToken? "msgstr[".toList word
  if index.getLast? = some ']' then Decimal.unsignedWord? index.dropLast else none

/-- Reads a keyword. -/
def Keyword.ofChars? (word : List Char) : Option Keyword :=
  if word = Keyword.context.chars then some .context
  else if word = Keyword.id.chars then some .id
  else if word = Keyword.pluralId.chars then some .pluralId
  else if word = Keyword.localized.chars then some .localized
  else (formIndex? word).map .form

/-! ### References -/

/-- The mark before a path that holds blanks, the first strong isolate. -/
def isolateStart : Char := '\u2068'

/-- The mark behind a path that holds blanks, which pops the directional isolate. -/
def isolateEnd : Char := '\u2069'

/-- A text up to its first blank, and the rest. -/
def plainToken (text : List Char) : List Char × List Char :=
  (text.takeWhile (!isBlank ·), text.dropWhile (!isBlank ·))

/-- A text up to its first closing mark, and what follows that mark. -/
def isolatedPart (text : List Char) : List Char × List Char :=
  (text.takeWhile (· ≠ isolateEnd), (text.dropWhile (· ≠ isolateEnd)).drop 1)

/-- The token that starts with `c`, which is no blank, and what follows it. Isolating marks around
the start of a token are dropped, and blanks between them belong to it. -/
def referenceToken (c : Char) (rest : List Char) : List Char × List Char :=
  if c = isolateStart then
    let isolated := isolatedPart rest
    let plain := plainToken isolated.2
    (isolated.1 ++ plain.1, plain.2)
  else
    let plain := plainToken rest
    (c :: plain.1, plain.2)

theorem plainToken_length (text : List Char) : (plainToken text).2.length ≤ text.length :=
  (List.dropWhile_sublist _).length_le

theorem isolatedPart_length (text : List Char) : (isolatedPart text).2.length ≤ text.length := by
  have kept := (List.dropWhile_sublist (l := text) (· ≠ isolateEnd)).length_le
  simp only [isolatedPart, List.length_drop]
  omega

theorem referenceToken_length (c : Char) (rest : List Char) :
    (referenceToken c rest).2.length ≤ rest.length := by
  unfold referenceToken
  split
  · exact Nat.le_trans (plainToken_length _) (isolatedPart_length _)
  · exact plainToken_length rest

/-- The tokens of a references line, between blanks. -/
def splitReferences (text : List Char) : List (List Char) :=
  match text with
  | [] => []
  | c :: rest =>
    if isBlank c then splitReferences rest
    else
      have := referenceToken_length c rest
      (referenceToken c rest).1 :: splitReferences (referenceToken c rest).2
termination_by text.length

/-- A reference as it stands on a references line: a path that holds blanks is isolated. -/
def referenceChars (reference : Reference) : List Char :=
  if reference.path.toList.any isBlank then
    isolateStart :: (reference.path.toList ++ isolateEnd :: ':' :: Decimal.digits reference.line)
  else reference.chars

/-! ### Comments -/

/-- What a comment line says. -/
inductive Comment where
  /-- A comment from the sources. -/
  | extracted (text : List Char)
  /-- Places in the sources. -/
  | references (places : List Reference)
  /-- Flags, the fuzzy one apart. -/
  | flags (fuzzy : Bool) (others : List String)
  /-- A translator's comment. -/
  | translator (text : List Char)
  /-- A comment of a kind that is not kept. -/
  | dropped
  deriving DecidableEq, Repr

/-- The name of the flag that marks a localized text as uncertain. -/
def fuzzyFlag : String := "fuzzy"

/-- The flags on a flags line, in order. -/
def splitFlags (text : List Char) : List String :=
  (((pieces (· = ',') text).map trim).filter (!·.isEmpty)).map String.ofList

/-- Reads a comment line by the character after the number sign. -/
def Comment.ofChars : List Char → Comment
  | '#' :: '.' :: ' ' :: text => .extracted text
  | '#' :: '.' :: text => .extracted text
  | '#' :: ':' :: text => .references ((splitReferences text).filterMap Reference.ofChars?)
  | '#' :: ',' :: text =>
    let flags := splitFlags text
    .flags (flags.contains fuzzyFlag) (flags.filter (· ≠ fuzzyFlag))
  | ['#'] => .translator []
  | '#' :: ' ' :: text => .translator text
  | _ => .dropped

/-! ### Lines -/

/-- What a line of a catalog file says. -/
inductive Line where
  | blank
  /-- A comment on an obsolete entry, which is not kept. -/
  | skipped
  | comment (comment : Comment)
  /-- A string alone, which goes on with the one before. -/
  | more (text : String)
  | keyword (obsolete : Bool) (keyword : Keyword) (text : String)
  deriving DecidableEq, Repr

/-- A string in quotes. -/
def unquoted (text : List Char) : Except Fault String :=
  match Quoted.unquote text with
  | .ok text => .ok (String.ofList text)
  | .error fault => .error (.quoting fault)

/-- Reads the part of a line that comes after the mark of obsolete entries. -/
def Line.ofContent (obsolete : Bool) (content : List Char) : Except Fault Line :=
  if content.head? = some '#' || (obsolete && content.head? = some '|') then
    .ok (if obsolete then .skipped else .comment (Comment.ofChars content))
  else if content.head? = some '"' then
    (unquoted content).map .more
  else
    match cut isBlank content with
    | none => .error (.noString (String.ofList content))
    | some (word, rest) =>
      match unquoted (trim rest) with
      | .error fault => .error fault
      | .ok text =>
        match Keyword.ofChars? word with
        | none => .error (.unknownKeyword (String.ofList word))
        | some kind => .ok (.keyword obsolete kind text)

/-- The mark of obsolete entries. -/
def obsoleteMark : List Char := ['#', '~']

/-- Reads a line; blanks at its end do not count. -/
def Line.ofChars (line : List Char) : Except Fault Line :=
  let line := trimEnd line
  if line.isEmpty then .ok .blank
  else
    match dropToken? obsoleteMark line with
    | some rest => Line.ofContent true (trimStart rest)
    | none => Line.ofContent false line

end Localization.Catalog

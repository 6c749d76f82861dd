import Localization.FileTree.Files
import Localization.Glob.Matching
import Localization.Text.Blank

/-
**Ignore files.**

An ignore file names by patterns what a walk through its directory leaves out. A later pattern goes
before an earlier one; one after an exclamation mark takes back in. A pattern with a slash other
than at its end counts from the directory of the file, and one with a slash at its end names
directories alone. This is the documented behaviour of a library for walks that is not part of the
program's sources.

* `IgnoreRule.ofLine?` — the rule on a line.
* `IgnoreFile.verdict?` — what the rules of a file say about a path.
* `IgnoreScope.verdict?` — what the files in all directories above a path say together.
-/

namespace Localization

open Text

/-- A rule of an ignore file. -/
structure IgnoreRule where
  glob : Glob
  /-- The rule takes back in what others leave out. -/
  negated : Bool
  directoriesOnly : Bool

namespace IgnoreRule

/-- How patterns in ignore files are read. -/
def options : Glob.Options := ⟨true, true⟩

/-- A line without the blanks at its end, unless the last one is escaped. -/
def trimLine (line : List Char) : List Char :=
  if ['\\', ' '].isSuffixOf line then line else trimEnd line

/-- The pattern behind the marks at the head of a line: whether it is negated, whether it counts
from the directory of the file, and its text. -/
def marks : List Char → Bool × Bool × List Char
  | '\\' :: '!' :: rest => (false, false, '!' :: rest)
  | '\\' :: '#' :: rest => (false, false, '#' :: rest)
  | '!' :: '/' :: rest => (true, true, rest)
  | '!' :: rest => (true, false, rest)
  | '/' :: rest => (false, true, rest)
  | line => (false, false, line)

/-- A pattern without a slash at its end, and without a backslash before that; and whether the slash
was there. -/
def dropSlash (pattern : List Char) : Bool × List Char :=
  if pattern.getLast? = some '/' then
    let rest := pattern.dropLast
    (true, if rest.getLast? = some '\\' then rest.dropLast else rest)
  else (false, pattern)

/-- The pattern as it covers paths: one without a slash covers them anywhere, and one for everything
in a directory does not cover the directory. -/
def whole (anchored : Bool) (pattern : List Char) : List Char :=
  let placed :=
    if anchored || pattern.contains '/' || pattern = ['*', '*'] then pattern
    else ['*', '*', '/'] ++ pattern
  if ['/', '*', '*'].isSuffixOf placed then placed ++ ['/', '*'] else placed

/-- The rule on a line, if there is one. -/
def ofLine? (line : List Char) : Option IgnoreRule :=
  if line.head? = some '#' then none
  else
    let line := trimLine line
    if line = [] then none
    else
      let (negated, anchored, pattern) := marks line
      let (directoriesOnly, pattern) := dropSlash pattern
      match Glob.ofPattern options (String.ofList (whole anchored pattern)) with
      | .error _ => none
      | .ok glob => some ⟨glob, negated, directoriesOnly⟩

end IgnoreRule

/-- What is said about a path. -/
inductive Verdict where
  | ignored
  | kept
  deriving DecidableEq, Repr

/-- The rules of an ignore file, and the path of the directory that they count from. -/
structure IgnoreFile where
  root : List Char
  rules : List IgnoreRule

namespace IgnoreFile

/-- A text without the dot and the slash at its head. -/
def dropDot (path : List Char) : List Char :=
  match path with
  | '.' :: '/' :: rest => rest
  | path => path

/-- The part of a path below the directory of an ignore file. -/
def strip (root path : List Char) : List Char :=
  let path := dropDot path
  if root = ['.'] || !path.contains '/' then path
  else
    match dropToken? root path with
    | none => path
    | some ('/' :: rest) => rest
    | some rest => rest

/-- What the last rule that covers a path says about it. -/
def verdict? (file : IgnoreFile) (path : List Char) (isDirectory : Bool) : Option Verdict :=
  let below := strip file.root path
  (file.rules.reverse.find? fun rule =>
    rule.glob.isMatch below && (!rule.directoriesOnly || isDirectory)).map fun rule =>
      if rule.negated then .kept else .ignored

/-- The lines of a file up to the first that is no text, without marks of byte order. -/
def textLines (content : Content) : List (List Char) :=
  let all : List (List Char) := match content with
    | .text text => lines text.toList
    | .binary bytes =>
      let parts := bytes.splitBy fun byte _ => byte != 0x0A
      let texts := parts.map fun part => String.fromUTF8? ⟨part.toArray⟩
      ((texts.takeWhile Option.isSome).filterMap id).flatMap fun text => lines text.toList
  match all with
  | first :: rest => first.dropWhile (· = '\uFEFF') :: rest
  | [] => []

/-- The rules of a file of the given name, which count from the directory `root`. -/
def load (tree : FileTree) (root file : Path) : IgnoreFile :=
  let rules := match tree.read file with
    | .ok content => (textLines content).filterMap IgnoreRule.ofLine?
    | .error _ => []
  ⟨dropDot root.text.toList, rules⟩

end IgnoreFile

/-- What the ignore files of one directory say. -/
structure IgnoreScope where
  /-- The rules of `.ignore`. -/
  plain : IgnoreFile
  /-- The rules of `.gitignore`. -/
  git : IgnoreFile
  /-- The rules of a repository that are not shared. -/
  exclude : IgnoreFile
  /-- A repository starts in the directory. -/
  isRepository : Bool

namespace IgnoreScope

/-- What the ignore files of a directory say. -/
def load (tree : FileTree) (directory : Path) : IgnoreScope where
  plain := .load tree directory (directory.join ".ignore")
  git := .load tree directory (directory.join ".gitignore")
  exclude := .load tree directory ((directory.join ".git").join "info/exclude")
  isRepository := tree.exists? (directory.join ".git") || tree.exists? (directory.join ".jj")

/-- What is known about a path from the directories that have been asked, the nearest first. -/
structure Findings where
  plain : Option Verdict := none
  git : Option Verdict := none
  exclude : Option Verdict := none
  /-- A repository starts in one of the directories. -/
  sawRepository : Bool := false

/-- The findings with those of one more directory. Rules of a repository do not reach into the
repositories within it. -/
def Findings.ask (inRepository : Bool) (path : List Char) (isDirectory : Bool)
    (findings : Findings) (scope : IgnoreScope) : Findings where
  plain := findings.plain.or (scope.plain.verdict? path isDirectory)
  git :=
    if inRepository && !findings.sawRepository then
      findings.git.or (scope.git.verdict? path isDirectory)
    else findings.git
  exclude :=
    if inRepository && !findings.sawRepository then
      findings.exclude.or (scope.exclude.verdict? path isDirectory)
    else findings.exclude
  sawRepository := findings.sawRepository || scope.isRepository

/-- What the ignore files of directories say about a path below them, the nearest directory first:
those of a walk, where the path is `path`, and those above, where it is `absolute`. Git's rules
count only in a repository. -/
def verdict? (walked above : List IgnoreScope) (path absolute : List Char) (isDirectory : Bool) :
    Option Verdict :=
  let inRepository := (walked ++ above).any (·.isRepository)
  let near := walked.foldl (Findings.ask inRepository (IgnoreFile.dropDot path) isDirectory) {}
  let all := above.foldl (Findings.ask inRepository absolute isDirectory) near
  all.plain.or (all.git.or all.exclude)

end IgnoreScope

end Localization

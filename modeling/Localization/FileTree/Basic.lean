import Localization.Path

/-
**Trees of files.**

A file stands at one place only, holds what was written to it last, and can be read and written by
whoever reaches it. Hard links, device files and permissions are outside of these trees.

* `FileTree` — files, directories and symbolic links by their place below the root, with the
  working directory that relative paths start from.
* `FileTree.walk` — the place that the parts of a path lead to, through links.
* `FileTree.resolve` — the place of a path.
-/

namespace Localization

/-- What a file holds: a text, or bytes that are no text. -/
inductive Content where
  | text (text : String)
  | binary (bytes : List UInt8)
  deriving DecidableEq

/-- The content that bytes make up. -/
def Content.ofBytes (bytes : List UInt8) : Content :=
  match String.fromUTF8? ⟨bytes.toArray⟩ with
  | some words => .text words
  | none => .binary bytes

/-- The place of a file: the names that lead to it from the root. -/
abbrev Place := List String

instance : StrictOrder Place where
  decide := fun _ _ => inferInstance
  irrefl := List.lt_irrefl
  trans := List.lt_trans
  connected := fun notBefore notAfter =>
    List.le_antisymm (List.not_lt.mp notAfter) (List.not_lt.mp notBefore)

/-- What stands at a place. -/
inductive Entry where
  /-- A file, with the time at which it was written. -/
  | file (content : Content) (stamp : Nat)
  | directory
  /-- A symbolic link to a path. -/
  | link (target : String)
  deriving DecidableEq

/-- Why a file cannot be used. -/
inductive FileError where
  | notFound
  | notADirectory
  | isADirectory
  | alreadyExists
  | tooManyLinks
  | nameTooLong
  | nulInName
  | notText
  | emptyPath
  deriving DecidableEq, Repr

/-- The wording of an error. -/
def FileError.message : FileError → String
  | notFound => "No such file or directory (os error 2)"
  | notADirectory => "Not a directory (os error 20)"
  | isADirectory => "Is a directory (os error 21)"
  | alreadyExists => "File exists (os error 17)"
  | tooManyLinks => "Too many levels of symbolic links (os error 40)"
  | nameTooLong => "File name too long (os error 36)"
  | nulInName => "file name contained an unexpected NUL byte"
  | notText => "stream did not contain valid UTF-8"
  | emptyPath => "cannot make an empty path absolute"

/-- Files, directories and links by place. The root is a directory that always is there. -/
structure FileTree where
  entries : SortedMap Place Entry
  /-- The directory that relative paths start from. -/
  workingDirectory : Place
  /-- The time, which goes on with every file that is written. -/
  clock : Nat
  deriving DecidableEq

namespace FileTree

/-- What stands at a place. -/
def get? (tree : FileTree) (place : Place) : Option Entry :=
  if place = [] then some .directory else tree.entries.get? place

/-- A place that a path leads to. -/
inductive Target where
  /-- Something stands there. -/
  | present (place : Place) (entry : Entry)
  /-- Nothing stands there, but its directory does. -/
  | absent (place : Place)
  deriving DecidableEq

/-- The longest name in bytes. -/
def nameLimit : Nat := 255

/-- The longest path in bytes. -/
def pathLimit : Nat := 4095

/-- How many links one path may lead through. -/
def linkLimit : Nat := 40

/-- The names and dots of a path. A slash at the end counts as a dot. -/
def parts (text : String) : List String :=
  let solid := ((pieces text).filter (· ≠ [])).map String.ofList
  if text.toList.getLast? = some '/' then solid ++ ["."] else solid
where
  /-- The parts between slashes. -/
  pieces (text : String) : List (List Char) := Text.pieces Path.isSlash text.toList

/-- The place from which a path starts. -/
def origin (text : String) (directory : Place) : Place :=
  if text.toList.head? = some '/' then [] else directory

/-- The place that the parts of a path lead to from a place, where `jump` goes on from a link. A link
at the end of the path is followed only if `follow` says so. -/
def walkFrom (tree : FileTree) (follow : Bool) (jump : Place → List String → Except FileError Target)
    (place : Place) (parts : List String) : Except FileError Target :=
  match parts with
  | [] =>
    match tree.get? place with
    | some entry => .ok (.present place entry)
    | none => .error .notFound
  | name :: rest =>
    match tree.get? place with
    | some .directory =>
      if name = "." then tree.walkFrom follow jump place rest
      else if name = ".." then tree.walkFrom follow jump place.dropLast rest
      else if nameLimit < name.utf8ByteSize then .error .nameTooLong
      else
        match tree.get? (place ++ [name]) with
        | none => if rest = [] then .ok (.absent (place ++ [name])) else .error .notFound
        | some (.link target) =>
          if rest = [] && !follow then .ok (.present (place ++ [name]) (.link target))
          else jump (origin target place) (FileTree.parts target ++ rest)
        | some _ => tree.walkFrom follow jump (place ++ [name]) rest
    | _ => .error .notADirectory

/-- The place that the parts of a path lead to from a place, through at most `links` links. -/
def walk (tree : FileTree) (follow : Bool) :
    Nat → Place → List String → Except FileError Target
  | 0 => tree.walkFrom follow fun _ _ => .error .tooManyLinks
  | links + 1 => tree.walkFrom follow (tree.walk follow links)

/-- The place of a path; a link at its end is followed only if `follow` says so. -/
@[irreducible]
def resolve (tree : FileTree) (path : Path) (follow : Bool := true) : Except FileError Target :=
  if '\x00' ∈ path.text.toList then .error .nulInName
  else if path.text = "" then .error .notFound
  else if pathLimit < path.text.utf8ByteSize then .error .nameTooLong
  else tree.walk follow linkLimit (origin path.text tree.workingDirectory) (parts path.text)

/-- The place and the entry of a path. -/
def find (tree : FileTree) (path : Path) : Except FileError (Place × Entry) :=
  match tree.resolve path with
  | .ok (.present place entry) => .ok (place, entry)
  | .ok (.absent _) => .error .notFound
  | .error error => .error error

/-- The path of a place. -/
def pathOf (place : Place) : Path := ⟨"/" ++ "/".intercalate place⟩

end FileTree

end Localization

import Localization.FileTree.Basic

/-
**Reading and writing files.**

Writing gives the tree that it leaves behind, also where it fails halfway.

* `FileTree.read`, `FileTree.readText` — what a file holds.
* `FileTree.write` — puts content into a file, which is made if its directory is there.
* `FileTree.createDirectories` — makes a directory and those above it.
* `FileTree.store` — puts content into a file and makes the directories above it.
* `FileTree.changes` — the files in which two trees differ.
-/

namespace Localization

/-- A path that cannot be used, and why. -/
structure FileFailure where
  path : Path
  error : FileError
  deriving DecidableEq, Repr

namespace FileTree

/-- What a file holds. -/
def read (tree : FileTree) (path : Path) : Except FileError Content :=
  match tree.find path with
  | .ok (_, .file content _) => .ok content
  | .ok _ => .error .isADirectory
  | .error error => .error error

/-- The text that a file holds. -/
def readText (tree : FileTree) (path : Path) : Except FileError String :=
  match tree.read path with
  | .ok (.text text) => .ok text
  | .ok (.binary _) => .error .notText
  | .error error => .error error

/-- Something stands at the end of the path. -/
def exists? (tree : FileTree) (path : Path) : Bool :=
  (tree.find path).toOption.isSome

/-- A file stands at the end of the path. -/
def isFile (tree : FileTree) (path : Path) : Bool :=
  match tree.find path with
  | .ok (_, .file ..) => true
  | _ => false

/-- A directory stands at the end of the path. -/
def isDirectory (tree : FileTree) (path : Path) : Bool :=
  match tree.find path with
  | .ok (_, .directory) => true
  | _ => false

/-- The names in the directory at a place. -/
def names (tree : FileTree) (place : Place) : List String :=
  tree.entries.keys.filterMap fun other =>
    if other.dropLast = place then other.getLast? else none

/-- The names in a directory. -/
def list (tree : FileTree) (path : Path) : Except FileError (List String) :=
  match tree.find path with
  | .ok (place, .directory) => .ok (tree.names place)
  | .ok _ => .error .notADirectory
  | .error error => .error error

/-- The tree with an entry at a place. -/
def put (tree : FileTree) (place : Place) (entry : Entry) : FileTree :=
  { tree with entries := tree.entries.insert place entry }

/-- The tree with a file at a place, written now. -/
def putFile (tree : FileTree) (place : Place) (content : Content) : FileTree :=
  { tree.put place (.file content tree.clock) with clock := tree.clock + 1 }

/-- Puts content into a file. -/
def write (tree : FileTree) (path : Path) (content : Content) : Except FileError FileTree :=
  match tree.resolve path with
  | .ok (.present _ .directory) => .error .isADirectory
  | .ok (.present place _) => .ok (tree.putFile place content)
  | .ok (.absent place) => .ok (tree.putFile place content)
  | .error error => .error error

/-- A path without the slashes at its end. -/
def withoutSlashes (path : Path) : Path :=
  let text := (path.text.toList.reverse.dropWhile (· = '/')).reverse
  if text = [] then path else ⟨String.ofList text⟩

/-- Makes one directory. -/
def createDirectory (tree : FileTree) (path : Path) : Except FileError FileTree :=
  match tree.resolve (withoutSlashes path) false with
  | .ok (.present ..) => .error .alreadyExists
  | .ok (.absent place) => .ok (tree.put place .directory)
  | .error error => .error error

/-- Makes a directory, or finds that it is there. -/
def ensureDirectory (tree : FileTree) (path : Path) : Except FileError FileTree :=
  match tree.createDirectory path with
  | .ok made => .ok made
  | .error error => if tree.isDirectory path then .ok tree else .error error

/-- Makes a directory, after making those above it where they are missing. At most `depth` of them
are made. -/
def createFrom (depth : Nat) (tree : FileTree) (path : Path) : Except FileError Unit × FileTree :=
  if path.text = "" then (.ok (), tree)
  else
    match tree.createDirectory path with
    | .ok made => (.ok (), made)
    | .error .notFound =>
      match depth, path.parent? with
      | depth + 1, some parent =>
        match createFrom depth tree parent with
        | (.error error, left) => (.error error, left)
        | (.ok (), left) =>
          match left.ensureDirectory path with
          | .ok made => (.ok (), made)
          | .error error => (.error error, left)
      | _, _ => (.error .notFound, tree)
    | .error error => if tree.isDirectory path then (.ok (), tree) else (.error error, tree)

/-- Makes a directory and those above it where they are missing. -/
def createDirectories (tree : FileTree) (path : Path) : Except FileError Unit × FileTree :=
  createFrom (path.components.length + 1) tree path

/-- Makes the directories above a path. -/
def createParents (tree : FileTree) (path : Path) : Except FileFailure Unit × FileTree :=
  match path.parent? with
  | none => (.ok (), tree)
  | some parent =>
    let (outcome, left) := tree.createDirectories parent
    (outcome.mapError (⟨parent, ·⟩), left)

/-- Puts content into a file, after making the directories above it. -/
def store (tree : FileTree) (path : Path) (content : Content) :
    Except FileFailure Unit × FileTree :=
  match tree.createParents path with
  | (.error failure, left) => (.error failure, left)
  | (.ok (), left) =>
    match left.write path content with
    | .ok written => (.ok (), written)
    | .error error => (.error ⟨path, error⟩, left)

/-- The tree without what stands at the end of a path, and everything below it. -/
def remove (tree : FileTree) (path : Path) : Except FileError FileTree :=
  match tree.resolve path false with
  | .ok (.present place _) =>
    .ok { tree with entries := tree.entries.filter fun other _ => !place.isPrefixOf other }
  | .ok (.absent _) => .error .notFound
  | .error error => .error error

/-- The tree with a symbolic link. -/
def link (tree : FileTree) (path : Path) (target : String) : Except FileError FileTree :=
  match tree.resolve path false with
  | .ok (.present ..) => .error .alreadyExists
  | .ok (.absent place) => .ok (tree.put place (.link target))
  | .error error => .error error

/-- Two entries hold the same, whenever they were written. -/
def sameEntry : Option Entry → Option Entry → Bool
  | some (.file content _), some (.file other _) => content = other
  | first, second => first = second

/-- A directory, or nothing. -/
def isNoFile : Option Entry → Bool
  | none => true
  | some .directory => true
  | _ => false

/-- The files and links that differ between two trees, with what stands there afterwards. -/
def changes (before after : FileTree) : List (Place × Option Entry) :=
  let places := (before.entries.keys ++ after.entries.keys).eraseDups
  let differing := places.filter fun place =>
    !sameEntry (before.entries.get? place) (after.entries.get? place) &&
      !(isNoFile (before.entries.get? place) && isNoFile (after.entries.get? place))
  differing.map fun place => (place, after.entries.get? place)

end FileTree

end Localization

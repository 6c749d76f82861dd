import Localization.FileTree.Ignore

/-
**Walking through directories.**

A walk starts at a path and goes down through directories, but not through links below its start.
Its paths are made of the path of the start and the names below it. Walks follow the documented
behaviour of a library that is not part of the program's sources.

* `FileTree.walkAll` — all files below a path but those that a test keeps out.
* `FileTree.walkSources` — the files that no ignore file leaves out.
-/

namespace Localization

namespace FileTree

/-- Something that a walk comes by: the names below the start, its path, and what stands there. -/
structure Step where
  names : List String
  path : Path
  entry : Entry

/-- The path of names below another. -/
def below (start : Path) (names : List String) : Path :=
  names.foldl Path.join start

/-- The entries below the place of a walk's start. -/
def entriesBelow (tree : FileTree) (start : Path) (place : Place) : List Step :=
  tree.entries.entries.filterMap fun (other, entry) =>
    if place.isPrefixOf other && other ≠ place then
      let names := other.drop place.length
      some ⟨names, below start names, entry⟩
    else none

/-- The beginnings of a list that are not empty, the list itself included. -/
def beginnings (names : List String) : List (List String) :=
  (List.range names.length).map fun count => names.take (count + 1)

/-- What a walk finds at its start. -/
inductive Start where
  /-- A file, which is all that the walk comes by. -/
  | file
  /-- A directory at a place. -/
  | directory (place : Place)
  | nothing

/-- What a walk finds at a path. A link at its end counts if it leads to a directory. -/
def startOf (tree : FileTree) (start : Path) : Start :=
  match tree.resolve start false with
  | .ok (.present _ (.file ..)) => .file
  | .ok (.present place .directory) => .directory place
  | .ok (.present _ (.link _)) =>
    match tree.find start with
    | .ok (place, .directory) => .directory place
    | _ => .nothing
  | _ => .nothing

/-- The files among the steps of a walk, but for those that are left out or lie below what is. -/
def filesWhere (steps : List Step) (isLeftOut : Step → Bool) : List Step :=
  let leftOut := (steps.filter isLeftOut).map (·.names)
  steps.filter fun step =>
    (match step.entry with | .file .. => true | _ => false) &&
      (beginnings step.names).all fun names => !leftOut.contains names

/-- The files below a path but those that a test leaves out, with everything below what it leaves
out. -/
def walkAll (tree : FileTree) (start : Path) (isLeftOut : Path → Bool) : List Path :=
  match tree.startOf start with
  | .nothing => []
  | .file => [start]
  | .directory place =>
    (filesWhere (tree.entriesBelow start place) fun step => isLeftOut step.path).map (·.path)

/-- What the ignore files above a place say, the nearest directory first. -/
def scopesAbove (tree : FileTree) (place : Place) : List IgnoreScope :=
  match place with
  | [] => []
  | _ =>
    ([] :: beginnings place.dropLast).reverse.map fun above => .load tree (pathOf above)

/-- What the ignore files between the start of a walk and the directory of a step say, the nearest
directory first. -/
def scopesAt (tree : FileTree) (start : Path) (names : List String) : List IgnoreScope :=
  ([] :: beginnings names.dropLast).reverse.map fun above => .load tree (below start above)

/-- An ignore file leaves out a step of a walk that starts at a place. -/
def isIgnored (tree : FileTree) (start : Path) (place : Place) (above : List IgnoreScope)
    (step : Step) : Bool :=
  let isDirectory := match step.entry with | .directory => true | _ => false
  let absolute := (below (pathOf place) step.names).text.toList
  IgnoreScope.verdict? (tree.scopesAt start step.names) above step.path.text.toList absolute
    isDirectory = some .ignored

/-- The files below a path that no ignore file leaves out. -/
def walkSources (tree : FileTree) (start : Path) : List Path :=
  match tree.startOf start with
  | .nothing => []
  | .file => [start]
  | .directory place =>
    let above := tree.scopesAbove place
    (filesWhere (tree.entriesBelow start place) (tree.isIgnored start place above)).map (·.path)

end FileTree

end Localization

import Localization.Text.Pieces
import Localization.SortedMap

/-
**Paths of files.**

A path is a text whose parts stand between slashes. Two texts name the same place if they have the
same components: empty parts do not count, nor does a dot except at the head of a relative path.

* `Path.components` — what a path says.
* `Path.join`, `Path.parent?`, `Path.relativeTo?`, `Path.absolute` — paths made from others.
* `Path.before` — the order of paths, component by component.
-/

namespace Localization

open Text

/-- A part of a path that counts. -/
inductive Component where
  | root
  | current
  | parent
  | normal (name : String)
  deriving DecidableEq, Repr

namespace Component

/-- The text of a component. -/
def text : Component → String
  | root => "/"
  | current => "."
  | parent => ".."
  | normal name => name

/-- The kinds of components in their order. -/
def rank : Component → Nat
  | root => 0
  | current => 1
  | parent => 2
  | normal _ => 3

/-- The order of components: by kind, and by name among names. -/
def before (first second : Component) : Bool :=
  first.rank < second.rank || (first.rank = second.rank && first.text < second.text)

end Component

/-- The text of a path. -/
structure Path where
  text : String
  deriving DecidableEq, Repr

namespace Path

/-- The character between the parts of a path. -/
def isSlash (c : Char) : Bool := c == '/'

/-- A part that does not count. -/
def isVoid (part : List Char) : Bool :=
  part = [] || part = ['.']

/-- The path starts at the root. -/
def isAbsolute (path : Path) : Bool :=
  path.text.toList.head? = some '/'

/-- The first component where it is no name, and the other parts. -/
def start (path : Path) : Option Component × List (List Char) :=
  match pieces isSlash path.text.toList with
  | [] => (none, [])
  | first :: rest =>
    if path.isAbsolute then (some .root, rest)
    else if first = ['.'] then (some .current, rest)
    else (none, first :: rest)

/-- The component of a part that counts. -/
def partComponent (part : List Char) : Component :=
  if part = ['.', '.'] then .parent else .normal (String.ofList part)

/-- The components of a path. -/
def components (path : Path) : List Component :=
  path.start.1.toList ++ (path.start.2.filter (!isVoid ·)).map partComponent

/-- Two texts name the same place. -/
def same (first second : Path) : Bool :=
  first.components = second.components

/-- The order of lists of components. -/
def componentsBefore : List Component → List Component → Bool
  | [], [] => false
  | [], _ :: _ => true
  | _ :: _, [] => false
  | first :: rest, other :: others =>
    if first = other then componentsBefore rest others else first.before other

/-- The order of paths, component by component. -/
def before (first second : Path) : Bool :=
  componentsBefore first.components second.components

/-- Paths in order; of those that name the same place the first one stays. -/
def sortDistinct (paths : List Path) : List Path :=
  distinct (paths.mergeSort fun first second => !second.before first)
where
  /-- Drops a path after one that names the same place. -/
  distinct : List Path → List Path
    | [] => []
    | path :: rest =>
      match distinct rest with
      | [] => [path]
      | next :: others => if path.same next then path :: others else path :: next :: others

/-- The path of `name` below `base`; an absolute name stands for itself. -/
def join (base : Path) (name : String) : Path :=
  if (Path.mk name).isAbsolute then ⟨name⟩
  else if base.text = "" || base.text.toList.getLast? = some '/' then ⟨base.text ++ name⟩
  else ⟨base.text ++ "/" ++ name⟩

/-- The parts without those at the end that do not count. -/
def dropEnd (parts : List (List Char)) : List (List Char) :=
  (parts.reverse.dropWhile isVoid).reverse

/-- The path with a first component and other parts. -/
def ofParts (first : Option Component) (parts : List (List Char)) : Path :=
  let body := String.ofList (['/'].intercalate parts)
  match first with
  | some .root => ⟨"/" ++ body⟩
  | some other => if parts = [] then ⟨other.text⟩ else ⟨other.text ++ "/" ++ body⟩
  | none => ⟨body⟩

/-- The path without its last component. The root has no parent, nor has the empty path. -/
def parent? (path : Path) : Option Path :=
  let (first, parts) := path.start
  match dropEnd parts with
  | [] => if first = some .current then some ⟨""⟩ else none
  | last :: rest => some (ofParts first (dropEnd (last :: rest).dropLast))

/-- The parts behind the first ones that count. -/
def dropParts : Nat → List (List Char) → List (List Char)
  | 0, parts => parts
  | count + 1, parts => dropParts count ((parts.dropWhile isVoid).drop 1)

/-- The path from `base` to a path below it. -/
def relativeTo? (path base : Path) : Option Path :=
  let (first, parts) := path.start
  match base.components.length with
  | 0 => some (ofParts first (dropEnd parts))
  | count + 1 =>
    if base.components.isPrefixOf path.components then
      let left := dropParts (if first.isSome then count else count + 1) parts
      some (ofParts none (dropEnd (left.dropWhile isVoid)))
    else none

/-- The path as components below a directory, without dots. -/
def extend (base : Path) (components : List Component) : Path :=
  components.foldl (fun path component => path.join component.text) base

/-- The components behind a dot at the head of a path. -/
def undotted (path : Path) : List Component :=
  match path.components with
  | .current :: rest => rest
  | components => components

/-- The absolute path of a path in a directory. Dots go, and a slash at the end stays. -/
def absolute (path directory : Path) : Path :=
  let text := path.text.toList
  let base :=
    if path.isAbsolute then
      if text.take 2 = ['/', '/'] && text[2]? ≠ some '/' then
        (Path.mk "//").extend path.components.tail
      else (Path.mk "").extend path.components
    else directory.extend path.undotted
  if text.getLast? = some '/' then base.join "" else base

/-- The path as it is written into references: from the project's directory, with slashes. -/
def reference (path project : Path) : String :=
  let relative := (path.relativeTo? project).getD path
  "/".intercalate (relative.components.map Component.text)

end Path

end Localization

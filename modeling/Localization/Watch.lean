import Localization.Build

/-
**Watching a project: a build whenever a source changes.**

* `Watch.fingerprint` — what tells one state of the sources from another.
* `Watch.start` — looks at the sources and builds.
* `Watch.look` — builds if the sources are not as they were when the last build was asked for.
-/

namespace Localization

/-- A source with its size and the time at which it was written. -/
structure SourceStamp where
  path : Path
  size : Nat
  written : Nat
  deriving DecidableEq, Repr

/-- A project that is watched. -/
structure Watch where
  project : Project
  options : BuildOptions
  scanner : SourceScanner
  /-- The sources as they were before the last build. -/
  known : List SourceStamp
  /-- How many builds were run. -/
  builds : Nat

namespace Watch

/-- The size of content in bytes. -/
def sizeOf : Content → Nat
  | .text text => text.utf8ByteSize
  | .binary bytes => bytes.length

/-- The stamp of a source. -/
def stamp (tree : FileTree) (path : Path) : SourceStamp :=
  match tree.find path with
  | .ok (_, .file content written) => ⟨path, sizeOf content, written⟩
  | _ => ⟨path, 0, 0⟩

/-- The sources with their stamps. -/
def fingerprint (scanner : SourceScanner) (tree : FileTree) : List SourceStamp :=
  (scanner.sources tree).map (stamp tree)

/-- Builds. A build that fails counts as well. -/
def build (watch : Watch) (tree : FileTree) : Watch × FileTree :=
  let (_, left) := watch.project.build watch.options tree
  ({ watch with builds := watch.builds + 1 }, left)

/-- Looks at the sources and builds. -/
def start (project : Project) (options : BuildOptions) (tree : FileTree) :
    Except ScanError (Watch × FileTree) := do
  let scanner ← SourceScanner.ofProject project false
  let watch : Watch := ⟨project, options, scanner, fingerprint scanner tree, 0⟩
  .ok (watch.build tree)

/-- Builds if the sources are not as they were before the last build. -/
def look (watch : Watch) (tree : FileTree) : Watch × FileTree :=
  let current := fingerprint watch.scanner tree
  if current = watch.known then (watch, tree)
  else { watch with known := current }.build tree

/-- Looks a number of times. -/
def lookRepeatedly (watch : Watch) (tree : FileTree) : Nat → Watch × FileTree
  | 0 => (watch, tree)
  | count + 1 =>
    let (next, left) := watch.look tree
    next.lookRepeatedly left count

end Watch

end Localization

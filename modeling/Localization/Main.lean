import Localization.Command.Run

/-
**The command line.**

A command works on a tree of files. The tree is read from disk, the command is run on it, and the
files that differ afterwards are written back. A watch does the same again and again.
-/

namespace Localization

namespace Disk

/-- What stands at the path `name` in a directory; nothing if that cannot be said. -/
def metadata? (directory name : String) : IO (Option IO.FS.Metadata) := do
  try
    return some (← (IO.FS.DirEntry.mk directory name).path.symlinkMetadata)
  catch _ => return none

/-- The time at which a file was written, in nanoseconds. -/
def stampOf (metadata : IO.FS.Metadata) : Nat :=
  metadata.modified.sec.toNat * 1000000000 + metadata.modified.nsec.toNat

/-- The place of an absolute path. -/
def placeOf (path : Path) : Place :=
  path.components.foldl (fun place component =>
    match component with
    | .normal name => place ++ [name]
    | .parent => place.dropLast
    | _ => place) []

/-- The directory with the given names, and the last name. -/
def split (place : Place) : String × String :=
  ((FileTree.pathOf place.dropLast).text, place.getLast?.getD "")

/-- The tree with the file at a place. -/
def readFile (tree : FileTree) (place : Place) (metadata : IO.FS.Metadata) : IO FileTree := do
  let bytes ← IO.FS.readBinFile (FileTree.pathOf place).text
  return tree.put place (.file (.ofBytes bytes.toList) (stampOf metadata))

/-- The names in a directory. -/
def names (place : Place) : IO (List String) := do
  let directory ← IO.FS.realPath (FileTree.pathOf place).text
  return (← directory.readDir).toList.map (·.fileName)

/-- The place that a path leads to through links, if it leads anywhere. -/
def realPlace? (place : Place) : IO (Option Place) := do
  try
    let found ← IO.FS.realPath (FileTree.pathOf place).text
    return some (placeOf ⟨found.toString⟩)
  catch _ => return none

/-- The tree with what stands at a place, if anything does, and with what a link there leads to.
Directories are read in which `inside` allows it; a directory behind a link is read without those
below it. -/
partial def read (inside : Place → Bool) (tree : FileTree) (place : Place) : IO FileTree := do
  match tree.get? place with
  | some .directory => readInside inside tree place
  | some _ => return tree
  | none =>
    let above ← read (fun _ => false) tree place.dropLast
    let (directory, name) := split place
    let some metadata ← metadata? directory name | return above
    match metadata.type with
    | .file => readFile above place metadata
    | .other => return above
    | .dir => readInside inside (above.put place .directory) place
    | .symlink =>
      let some target ← realPlace? place | return above
      read (· = target) (above.put place (.link (FileTree.pathOf target).text)) target
where
  /-- The tree with what is in a directory. -/
  readInside (inside : Place → Bool) (tree : FileTree) (place : Place) : IO FileTree := do
    if inside place then
      (← names place).foldlM (fun tree child => read inside tree (place ++ [child])) tree
    else return tree

/-- A directory in which no files are looked for. -/
def isHidden (place : Place) : Bool := place.contains ".git"

/-- The files that can keep others from being sources, seen from a directory. -/
def ignoreFiles : List Place :=
  [[".ignore"], [".gitignore"], [".git"], [".jj"], [".git", "info", "exclude"]]

/-- The tree with what stands at a place alone. -/
def readOne (tree : FileTree) (place : Place) : IO FileTree :=
  read (fun _ => false) tree place

/-- The tree with everything below a path, and with the files above it that have a say in what is a
source. -/
def readBelow (tree : FileTree) (path : Path) : IO FileTree := do
  let place := placeOf path
  let mut tree ← readOne tree place
  for above in [] :: FileTree.beginnings place do
    for file in ignoreFiles do
      tree ← readOne tree (above ++ file)
  match ← realPlace? place with
  | none => return tree
  | some target => read (!isHidden ·) tree target

/-- Writes the files back in which a tree differs from how it was. -/
def write (before after : FileTree) : IO Unit := do
  for (place, entry) in after.entries.entries do
    if entry = .directory && (before.get? place).isNone then
      IO.FS.createDirAll (FileTree.pathOf place).text
  for (place, entry) in FileTree.changes before after do
    match entry with
    | some (.file (.text text) _) => IO.FS.writeFile (FileTree.pathOf place).text text
    | some (.file (.binary bytes) _) =>
      IO.FS.writeBinFile (FileTree.pathOf place).text ⟨bytes.toArray⟩
    | _ => pure ()

end Disk

namespace Command

/-- The tree before anything is read. -/
def bareTree : IO FileTree := do
  let here := Disk.placeOf ⟨(← IO.currentDir).toString⟩
  Disk.readOne ⟨.empty, here, 0⟩ here

/-- The paths that a command uses, made absolute. -/
def absolutePaths (tree : FileTree) (paths : List Path) : List Path :=
  paths.map (·.absolute (FileTree.pathOf tree.workingDirectory))

/-- The paths that a project uses. -/
def projectPaths (project : Project) : List Path :=
  project.locale.directory :: project.sourceDirectories

/-- The tree with all that a command with the given arguments uses. -/
def readTree (arguments : Arguments) : IO FileTree := do
  let mut tree ← bareTree
  let here := FileTree.pathOf tree.workingDirectory
  let directory := arguments.projectDirectory.getD here
  let settings := arguments.settingsFile.getD (directory.join Project.settingsName)
  for path in absolutePaths tree ([directory, settings] ++ arguments.logFile.toList) do
    tree ← Disk.readOne tree (Disk.placeOf path)
  let used :=
    match project tree arguments with
    | .error _ => []
    | .ok project =>
      projectPaths project ++ arguments.projectSource.toList ++ arguments.projectOutput.toList
  for path in absolutePaths tree used do
    tree ← Disk.readBelow tree path
  return tree

/-- Tells the user how a command ended. -/
def report (exit : Exit) : IO UInt32 := do
  match exit with
  | .refused (.help) | .refused (.version) => exit.message?.forM IO.println
  | _ => exit.message?.forM IO.eprintln
  return UInt32.ofNat exit.code

/-- Looks at the sources whenever the delay has passed, for ever. -/
partial def keepWatching (arguments : Arguments) (watch : Watch) (delay : Nat) : IO UInt32 := do
  IO.sleep (UInt32.ofNat delay)
  let tree ← readTree arguments
  let (next, left) := watch.look tree
  Disk.write tree left
  keepWatching arguments next delay

/-- Runs a command with the given words. -/
def run (words : List String) : IO UInt32 := do
  match Arguments.parse words with
  | .error refusal => report (.refused refusal)
  | .ok arguments =>
    let tree ← readTree arguments
    let (start, left) := Command.start tree words
    Disk.write tree left
    match start with
    | .exit exit => report exit
    | .watching watch delay => keepWatching arguments watch delay

end Command

end Localization

/-- Runs the command that the arguments ask for. -/
def main (words : List String) : IO UInt32 :=
  Localization.Command.run words

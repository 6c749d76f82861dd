import Localization.Scheduler
import Localization.Watch

/-
**A watch, one step at a time.**

`Watch.look` looks at the sources and builds at once. Between its steps, and while a build reads the sources
one by one, the tree may change; a trigger may be dropped by the scheduler, and a build may be aborted.

* `Watching.Stage` — where a watch stands, from a look at the sources to the end of a build.
* `Watching` — a watch, the tree, and what happened so far.
* `Watching.Move`, `Watching.step?`, `Watching.run?` — what the watch, the clock and others do.
-/

namespace Localization

/-- What a path leads to, or why it leads nowhere. -/
def FileTree.lookAt (tree : FileTree) (path : Path) : Entry ⊕ FileError :=
  match tree.find path with
  | .ok (_, entry) => .inl entry
  | .error error => .inr error

/-- The sources with what they are, which is all that their stamps and a scan depend on. -/
def SourceScanner.sourceEntries (scanner : SourceScanner) (tree : FileTree) :
    List (Path × (Entry ⊕ FileError)) :=
  (scanner.sources tree).map fun path => (path, tree.lookAt path)

/-- The scanner of the builds of a watch. -/
def Watch.builder (watch : Watch) : SourceScanner :=
  { watch.scanner with showContext := watch.options.showContext }

/-- The stamps of the sources, and the step at which they were taken. -/
structure Snapshot where
  stamps : List SourceStamp
  taken : Nat
  deriving DecidableEq, Repr

/-- What a build scanned, and the step at which it began to. -/
structure BuildScan where
  begun : Nat
  scan : Scan
  deriving DecidableEq

/-- Where a watch stands. -/
inductive Watching.Stage where
  | resting
  /-- A look at the sources calls for a build. -/
  | due (current : Snapshot)
  /-- The scheduler runs the build. -/
  | admitted (current : Snapshot)
  /-- The sources are listed, and some of them are read. -/
  | scanning (current : Snapshot) (begun : Nat) (paths : List Path) (found : Path → Option Findings)
  /-- The scan is saved. -/
  | saved (current : Snapshot) (built : BuildScan)

/-- A watch, the tree that it watches, and what happened so far. -/
structure Watching where
  watch : Watch
  tree : FileTree
  moment : Moment
  stage : Watching.Stage
  /-- How many steps there were. -/
  steps : Nat
  /-- The stamps that the sources had so far. -/
  seen : List (List SourceStamp)
  /-- The steps at which sources changed. -/
  edits : List Nat
  /-- The step at which the known stamps were taken. -/
  knownSince : Nat
  /-- The scan of the last build that was run. -/
  last : Option BuildScan

namespace Watching

/-- The known stamps. -/
def known (watching : Watching) : Snapshot := ⟨watching.watch.known, watching.knownSince⟩

/-- The stamps that the sources have. -/
def current (watching : Watching) : List SourceStamp :=
  Watch.fingerprint watching.watch.scanner watching.tree

/-- A watch that has looked at the sources for the first time, and whose first build is admitted. -/
def start (project : Project) (options : BuildOptions) (scanner : SourceScanner) (minDelay now : Nat)
    (tree : FileTree) : Watching where
  watch := ⟨project, options, scanner, Watch.fingerprint scanner tree, 0⟩
  tree := tree
  moment := ⟨(Scheduler.idle minDelay).acquire, now⟩
  stage := .admitted ⟨Watch.fingerprint scanner tree, 0⟩
  steps := 1
  seen := [Watch.fingerprint scanner tree]
  edits := []
  knownSince := 0
  last := none

/-- The sources are the same in another tree. -/
def keeps (watching : Watching) (tree : FileTree) : Bool :=
  watching.watch.scanner.sourceEntries tree = watching.watch.scanner.sourceEntries watching.tree

/-- The tree may become another one: the sources are the same, or they have stamps that they never had. -/
def allows (watching : Watching) (tree : FileTree) : Bool :=
  watching.keeps tree || !watching.seen.contains (Watch.fingerprint watching.watch.scanner tree)

/-- The watch when the tree has become another one. -/
def become (watching : Watching) (tree : FileTree) : Watching :=
  { watching with
    tree := tree
    seen := Watch.fingerprint watching.watch.scanner tree :: watching.seen
    edits := if watching.keeps tree then watching.edits else watching.steps :: watching.edits }

/-- The findings in sources that are read, in the order of the sources. -/
def gather (paths : List Path) (found : Path → Option Findings) : Scan :=
  let findings := (paths.map fun path => (found path).getD Findings.none).foldr Findings.append .none
  ⟨paths.length, .ofMentions findings.mentions, findings.warnings⟩

/-- What can happen next. -/
inductive Move where
  | wait (time : Nat)
  /-- Others change the tree. -/
  | edit (tree : FileTree)
  /-- The watch looks at the sources. -/
  | tick
  /-- The scheduler drops the trigger. -/
  | drop
  /-- The scheduler runs the build. -/
  | launch
  /-- The build lists the sources. -/
  | list
  /-- The build reads a source. -/
  | read (path : Path)
  /-- The build saves its scan, or fails to. -/
  | save
  | finish
  | abort

/-- The scheduler runs a trigger now. -/
def admits (watching : Watching) : Bool :=
  watching.moment.scheduler.admits watching.moment.now

/-- The stage and the moment after a move that changes nothing else. -/
def turn? (watching : Watching) : Move → Option (Stage × Moment)
  | .wait time => some (watching.stage, watching.moment.advance time)
  | .tick =>
    match watching.stage with
    | .resting =>
      if watching.current = watching.watch.known then some (.resting, watching.moment)
      else some (.due ⟨watching.current, watching.steps⟩, watching.moment)
    | _ => none
  | .drop =>
    match watching.stage with
    | .due _ => if watching.admits then none else some (.resting, watching.moment)
    | _ => none
  | .launch =>
    match watching.stage with
    | .due current =>
      if watching.admits then
        some (.admitted current, { watching.moment with scheduler := watching.moment.scheduler.acquire })
      else none
    | _ => none
  | .list =>
    match watching.stage with
    | .admitted current =>
      let paths := watching.watch.builder.sources watching.tree
      some (.scanning current watching.steps paths fun _ => none, watching.moment)
    | _ => none
  | .read path =>
    match watching.stage with
    | .scanning current begun paths found =>
      if path ∈ paths ∧ found path = none then
        let findings := watching.watch.builder.scanFile watching.tree path
        some (.scanning current begun paths fun other => if other = path then some findings else found other,
          watching.moment)
      else none
    | _ => none
  | .abort =>
    match watching.stage with
    | .admitted _ | .scanning .. | .saved .. => some (.resting, watching.moment.finish false)
    | _ => none
  | .edit _ | .save | .finish => none

/-- What becomes of a watch by a move that is possible, but for the count of steps. -/
def act? (watching : Watching) : Move → Option Watching
  | .edit tree => if watching.allows tree then some (watching.become tree) else none
  | .save =>
    match watching.stage with
    | .scanning current begun paths found =>
      let scan := gather paths found
      let left := (watching.watch.project.buildScanned watching.watch.options scan watching.tree).2
      if (∀ path ∈ paths, found path ≠ none) ∧ watching.allows left then
        some { watching.become left with stage := .saved current ⟨begun, scan⟩ }
      else none
    | _ => none
  | .finish =>
    match watching.stage with
    | .saved current built =>
      some { watching with
        watch := { watching.watch with known := current.stamps, builds := watching.watch.builds + 1 }
        moment := watching.moment.finish true
        stage := .resting
        knownSince := current.taken
        last := some built }
    | _ => none
  | move => (watching.turn? move).map fun (stage, moment) => { watching with stage := stage, moment := moment }

/-- What becomes of a watch by a move that is possible. -/
def step? (watching : Watching) (move : Move) : Option Watching :=
  (watching.act? move).map fun next => { next with steps := next.steps + 1 }

/-- What becomes of a watch by moves, each of which is possible. -/
def run? (watching : Watching) (moves : List Move) : Option Watching :=
  moves.foldlM step? watching

end Watching

end Localization

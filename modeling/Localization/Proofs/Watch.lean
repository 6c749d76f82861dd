import Localization.Proofs.Build
import Localization.Proofs.Scanning.Exact
import Localization.Watch.Watching

/-
**A watch misses no change of its sources.**

The stamps that a watch knows were taken before the scan of its last build, so a change of the sources that
this scan may have missed comes with other stamps than the known ones. A change is seen by its stamps alone:
it has to give the sources stamps that they never had.

* `SourceScanner.fingerprint_congr`, `scan_congr` — what stamps and a scan depend on.
* `Watching.Holds`, `Watching.Covers` — what a snapshot and a scan say of the sources.
* `Watching.cases_of_step`, `cases_of_turn` — what a move can do.
* `Watching.Sound`, `Sound.step`, `Sound.run` — what holds of a watch whatever happens.
* `Watching.last_of_run` — the last build and the known stamps, and what becomes of a dropped trigger.
-/

namespace Localization

/-! ### What a look and a scan depend on -/

namespace SourceScanner

variable {scanner : SourceScanner} {tree other : FileTree} {path : Path}

theorem sourceEntries_eq_iff : scanner.sourceEntries tree = scanner.sourceEntries other ↔
    scanner.sources tree = scanner.sources other ∧
      ∀ path ∈ scanner.sources tree, tree.lookAt path = other.lookAt path := by
  constructor
  · intro same
    have sources : scanner.sources tree = scanner.sources other := by
      simpa [sourceEntries, Function.comp_def] using congrArg (List.map Prod.fst) same
    refine ⟨sources, fun path member => ?_⟩
    rw [sourceEntries, sourceEntries, ← sources] at same
    exact (Prod.ext_iff.mp (List.map_inj_left.mp same path member)).2
  · rintro ⟨sources, entries⟩
    rw [sourceEntries, sourceEntries, ← sources]
    exact List.map_inj_left.mpr fun path member => by rw [entries path member]

/-- A path that leads to the same in two trees is found in both or in none. -/
theorem find_of_lookAt (same : tree.lookAt path = other.lookAt path) :
    (∃ error, tree.find path = .error error ∧ other.find path = .error error) ∨
      ∃ here there entry, tree.find path = .ok (here, entry) ∧ other.find path = .ok (there, entry) := by
  rw [FileTree.lookAt, FileTree.lookAt] at same
  rcases first : tree.find path with error | ⟨here, entry⟩ <;>
    rcases second : other.find path with failure | ⟨there, also⟩ <;>
    rw [first, second] at same <;> cases same
  · exact .inl ⟨error, rfl, rfl⟩
  · exact .inr ⟨here, there, entry, rfl, rfl⟩

theorem stamp_congr (same : tree.lookAt path = other.lookAt path) :
    Watch.stamp tree path = Watch.stamp other path := by
  rw [Watch.stamp, Watch.stamp]
  rcases find_of_lookAt same with ⟨error, here, there⟩ | ⟨_, _, entry, here, there⟩
  · rw [here, there]
  · rw [here, there]
    cases entry <;> rfl

theorem scanFile_congr (scanner : SourceScanner) (same : tree.lookAt path = other.lookAt path) :
    scanner.scanFile tree path = scanner.scanFile other path := by
  have read : tree.read path = other.read path := by
    rw [FileTree.read, FileTree.read]
    rcases find_of_lookAt same with ⟨error, here, there⟩ | ⟨_, _, entry, here, there⟩
    · rw [here, there]
    · rw [here, there]
      cases entry <;> rfl
  rw [scanFile, scanFile, FileTree.readText, FileTree.readText, read]

theorem fingerprint_congr (same : scanner.sourceEntries tree = scanner.sourceEntries other) :
    Watch.fingerprint scanner tree = Watch.fingerprint scanner other := by
  obtain ⟨sources, entries⟩ := sourceEntries_eq_iff.mp same
  rw [Watch.fingerprint, Watch.fingerprint, ← sources]
  exact List.map_inj_left.mpr fun path member => stamp_congr (entries path member)

/-- **The findings in all sources are those of a scan**, in whatever order they are read. -/
theorem gather_eq_scan {found : Path → Option Findings}
    (read : ∀ path ∈ scanner.sources tree, found path = some (scanner.scanFile tree path)) :
    Watching.gather (scanner.sources tree) found = scanner.scan tree := by
  have same : (scanner.sources tree).map (fun path => (found path).getD Findings.none) =
      (scanner.sources tree).map (scanner.scanFile tree) :=
    List.map_inj_left.mpr fun path member => by rw [read path member, Option.getD_some]
  rw [Watching.gather, same, scan, scanShared_eq, scanFiles]

theorem scan_congr (same : scanner.sourceEntries tree = scanner.sourceEntries other) :
    scanner.scan tree = scanner.scan other := by
  obtain ⟨sources, entries⟩ := sourceEntries_eq_iff.mp same
  let found (path : Path) : Option Findings := some (scanner.scanFile tree path)
  calc scanner.scan tree
      = Watching.gather (scanner.sources tree) found := (gather_eq_scan fun _ _ => rfl).symm
    _ = Watching.gather (scanner.sources other) found := by rw [sources]
    _ = scanner.scan other := gather_eq_scan fun path member =>
        congrArg some (scanFile_congr scanner (entries path (sources ▸ member)))

end SourceScanner

namespace Watching

variable {watching next : Watching} {snapshot : Snapshot} {built : BuildScan} {tree : FileTree}

/-! ### What a snapshot and a scan say of the sources -/

/-- The sources had the stamps of a snapshot, and if they have them, they did not change since. -/
structure Holds (watching : Watching) (snapshot : Snapshot) : Prop where
  seen : snapshot.stamps ∈ watching.seen
  taken : snapshot.taken < watching.steps
  still : watching.current = snapshot.stamps → ∀ edit ∈ watching.edits, edit < snapshot.taken

/-- A scan began behind a snapshot, and if the sources have the stamps of this, it found what they hold. -/
structure Covers (watching : Watching) (snapshot : Snapshot) (built : BuildScan) : Prop where
  behind : snapshot.taken < built.begun
  exact : watching.current = snapshot.stamps → built.scan = watching.watch.builder.scan watching.tree

/-- Either the sources stay as they are, or they get stamps that they never had. -/
theorem allows_iff : watching.allows tree = true ↔
    watching.watch.scanner.sourceEntries tree = watching.watch.scanner.sourceEntries watching.tree ∨
      (watching.become tree).current ∉ watching.seen := by
  simp [allows, keeps, current, become]

theorem Holds.become (holds : watching.Holds snapshot) (allowed : watching.allows tree = true) :
    (watching.become tree).Holds snapshot where
  seen := List.mem_cons_of_mem _ holds.seen
  taken := holds.taken
  still same := by
    rcases allows_iff.mp allowed with kept | new
    · have edits : (watching.become tree).edits = watching.edits := if_pos (decide_eq_true kept)
      rw [edits]
      exact holds.still ((SourceScanner.fingerprint_congr kept).symm.trans same)
    · exact absurd (same ▸ holds.seen) new

theorem Covers.become (covers : watching.Covers snapshot built) (seen : snapshot.stamps ∈ watching.seen)
    (allowed : watching.allows tree = true) : (watching.become tree).Covers snapshot built where
  behind := covers.behind
  exact same := by
    rcases allows_iff.mp allowed with kept | new
    · have entries : watching.watch.builder.sourceEntries watching.tree =
          watching.watch.builder.sourceEntries tree := kept.symm
      exact (covers.exact ((SourceScanner.fingerprint_congr kept).symm.trans same)).trans
        (SourceScanner.scan_congr entries)
    · exact absurd (same ▸ seen) new

/-! ### What holds whatever happens -/

/-- What a stage says of the sources. -/
def Fits (watching : Watching) : Stage → Prop
  | .resting => True
  | .due current => watching.Holds current ∧ watching.current ≠ watching.watch.known
  | .admitted current => watching.Holds current
  | .scanning current begun paths found =>
    watching.Holds current ∧ current.taken < begun ∧
      (watching.current = current.stamps → paths = watching.watch.builder.sources watching.tree ∧
        ∀ path ∈ paths, ∀ findings, found path = some findings →
          findings = watching.watch.builder.scanFile watching.tree path)
  | .saved current built => watching.Holds current ∧ watching.Covers current built

/-- What holds of a watch. -/
structure Sound (watching : Watching) : Prop where
  seen : watching.current ∈ watching.seen
  edits : ∀ edit ∈ watching.edits, edit < watching.steps
  known : watching.Holds watching.known
  fits : watching.Fits watching.stage
  last : 0 < watching.watch.builds →
    ∃ built, watching.last = some built ∧ watching.Covers watching.known built

/-- The watch at another stage, one step later. -/
def turn (watching : Watching) (stage : Stage) (moment : Moment) : Watching :=
  { watching with stage := stage, moment := moment, steps := watching.steps + 1 }

variable {stage : Stage} {moment : Moment}

theorem Holds.turn (holds : watching.Holds snapshot) : (watching.turn stage moment).Holds snapshot :=
  ⟨holds.seen, Nat.lt_succ_of_lt holds.taken, holds.still⟩

theorem Covers.turn (covers : watching.Covers snapshot built) :
    (watching.turn stage moment).Covers snapshot built :=
  ⟨covers.behind, covers.exact⟩

theorem Fits.turn (fits : watching.Fits stage) : (watching.turn stage moment).Fits stage := by
  cases stage with
  | resting => trivial
  | due current => exact ⟨fits.1.turn, fits.2⟩
  | admitted current => exact Holds.turn fits
  | scanning current begun paths found => exact ⟨fits.1.turn, fits.2⟩
  | saved current built => exact ⟨fits.1.turn, fits.2.turn⟩

/-- **What holds of a watch holds at another stage.** -/
theorem Sound.turn (sound : watching.Sound) (fits : (watching.turn stage moment).Fits stage) :
    (watching.turn stage moment).Sound where
  seen := sound.seen
  edits edit member := Nat.lt_succ_of_lt (sound.edits edit member)
  known := sound.known.turn
  fits := fits
  last ran := by
    obtain ⟨built, run, covers⟩ := sound.last ran
    exact ⟨built, run, covers.turn⟩

/-- A look at the sources takes their stamps. -/
theorem Sound.holds_current (sound : watching.Sound) :
    (watching.turn stage moment).Holds ⟨watching.current, watching.steps⟩ :=
  ⟨sound.seen, Nat.lt_succ_self _, fun _ edit => sound.edits edit⟩

theorem Fits.read {current : Snapshot} {begun : Nat} {paths : List Path} {found : Path → Option Findings}
    (fits : watching.Fits (.scanning current begun paths found)) (path : Path) :
    watching.Fits (.scanning current begun paths fun other =>
      if other = path then some (watching.watch.builder.scanFile watching.tree path) else found other) := by
  obtain ⟨holds, behind, exact⟩ := fits
  refine ⟨holds, behind, fun same => ⟨(exact same).1, fun other member findings read => ?_⟩⟩
  dsimp only at read
  split at read
  case isTrue here =>
    cases here
    exact (Option.some.inj read).symm
  case isFalse => exact (exact same).2 other member findings read

/-- A build that has read all sources has the scan of them. -/
theorem Sound.covers_gather (sound : watching.Sound) {current : Snapshot} {begun : Nat} {paths : List Path}
    {found : Path → Option Findings} (scanning : watching.stage = .scanning current begun paths found)
    (whole : ∀ path ∈ paths, found path ≠ none) : watching.Covers current ⟨begun, gather paths found⟩ := by
  have fits := sound.fits
  rw [scanning] at fits
  obtain ⟨-, behind, exact⟩ := fits
  refine ⟨behind, fun same => ?_⟩
  obtain ⟨rfl, read⟩ := exact same
  refine SourceScanner.gather_eq_scan fun path member => ?_
  obtain ⟨findings, has⟩ := Option.ne_none_iff_exists'.mp (whole path member)
  rw [has, read path member findings has]

theorem Fits.become (fits : watching.Fits stage) (sound : watching.Sound)
    (allowed : watching.allows tree = true) : (watching.become tree).Fits stage := by
  cases stage with
  | resting => trivial
  | due current =>
    refine ⟨fits.1.become allowed, fun same => ?_⟩
    rcases allows_iff.mp allowed with kept | new
    · exact fits.2 ((SourceScanner.fingerprint_congr kept).symm.trans same)
    · exact new (same ▸ sound.known.seen)
  | admitted current => exact Holds.become fits allowed
  | scanning current begun paths found =>
    obtain ⟨holds, behind, exact⟩ := fits
    refine ⟨holds.become allowed, behind, fun same => ?_⟩
    rcases allows_iff.mp allowed with kept | new
    · obtain ⟨listed, read⟩ := exact ((SourceScanner.fingerprint_congr kept).symm.trans same)
      obtain ⟨sources, entries⟩ := SourceScanner.sourceEntries_eq_iff.mp kept.symm
      refine ⟨listed.trans sources, fun path member findings found => ?_⟩
      rw [read path member findings found]
      exact SourceScanner.scanFile_congr _ (entries path (listed ▸ member))
    · exact absurd (same ▸ holds.seen) new
  | saved current built => exact ⟨fits.1.become allowed, fits.2.become fits.1.seen allowed⟩

theorem mem_edits_become {edit : Nat} (member : edit ∈ (watching.become tree).edits) :
    edit = watching.steps ∨ edit ∈ watching.edits := by
  rw [become] at member
  dsimp only at member
  split at member
  · exact .inr member
  · exact List.mem_cons.mp member

/-- The watch with another tree, one step later. -/
def pass (watching : Watching) (tree : FileTree) (stage : Stage) : Watching :=
  { watching.become tree with stage := stage, steps := watching.steps + 1 }

/-- **What holds of a watch holds when the tree becomes another one.** -/
theorem Sound.pass (sound : watching.Sound) (allowed : watching.allows tree = true)
    (fits : (watching.become tree).Fits stage) :
    (watching.pass tree stage).Sound where
  seen := List.mem_cons_self
  edits edit member := by
    rcases mem_edits_become member with rfl | before
    · exact Nat.lt_succ_self _
    · exact Nat.lt_succ_of_lt (sound.edits edit before)
  known := (sound.known.become allowed).turn
  fits := by
    show ((watching.become tree).turn stage watching.moment).Fits stage
    exact fits.turn
  last ran := by
    obtain ⟨built, run, covers⟩ := sound.last ran
    exact ⟨built, run, (covers.become sound.known.seen allowed).turn⟩

/-- The watch when its build has ended. -/
def close (watching : Watching) (current : Snapshot) (built : BuildScan) : Watching :=
  { watching with
    watch := { watching.watch with known := current.stamps, builds := watching.watch.builds + 1 }
    moment := watching.moment.finish true
    stage := .resting
    steps := watching.steps + 1
    knownSince := current.taken
    last := some built }

/-- **What holds of a watch holds when its build has ended.** -/
theorem Sound.close (sound : watching.Sound) (holds : watching.Holds snapshot)
    (covers : watching.Covers snapshot built) : (watching.close snapshot built).Sound where
  seen := sound.seen
  edits edit member := Nat.lt_succ_of_lt (sound.edits edit member)
  known := ⟨holds.seen, Nat.lt_succ_of_lt holds.taken, holds.still⟩
  fits := trivial
  last _ := ⟨built, rfl, covers.behind, covers.exact⟩

/-! ### What a move does -/

/-- **A move** changes the stage and the moment, or the tree, or it ends a build. -/
theorem cases_of_step {move : Move} (steps : watching.step? move = some next) :
    (∃ stage moment, watching.turn? move = some (stage, moment) ∧ next = watching.turn stage moment) ∨
    (∃ tree, watching.allows tree = true ∧ next = watching.pass tree watching.stage) ∨
    (∃ tree current begun paths found, watching.stage = .scanning current begun paths found ∧
      (∀ path ∈ paths, found path ≠ none) ∧ watching.allows tree = true ∧
        next = watching.pass tree (.saved current ⟨begun, gather paths found⟩)) ∨
    ∃ current built, move = .finish ∧ watching.stage = .saved current built ∧
      next = watching.close current built := by
  obtain ⟨acted, acts, rfl⟩ := Option.map_eq_some_iff.mp steps
  cases move with
  | edit tree =>
    obtain ⟨allowed, rfl⟩ : watching.allows tree = true ∧ watching.become tree = acted := by
      simpa [act?] using acts
    exact .inr (.inl ⟨tree, allowed, rfl⟩)
  | save =>
    cases stage : watching.stage with
    | scanning current begun paths found =>
      obtain ⟨⟨whole, allowed⟩, rfl⟩ : ((∀ path ∈ paths, found path ≠ none) ∧ watching.allows _ = true) ∧
          _ = acted := by simpa [act?, stage] using acts
      exact .inr (.inr (.inl ⟨_, current, begun, paths, found, rfl, whole, allowed, rfl⟩))
    | _ => simp [act?, stage] at acts
  | finish =>
    cases stage : watching.stage with
    | saved current built =>
      obtain rfl : _ = acted := by simpa [act?, stage] using acts
      exact .inr (.inr (.inr ⟨current, built, rfl, rfl, rfl⟩))
    | _ => simp [act?, stage] at acts
  | wait | tick | drop | launch | list | read | abort =>
    simp only [act?] at acts
    obtain ⟨⟨stage, moment⟩, turns, rfl⟩ := Option.map_eq_some_iff.mp acts
    exact .inl ⟨stage, moment, turns, rfl⟩

/-- **A move that changes only the stage** lets it be, leads to rest, or takes the watch one stage on. -/
theorem cases_of_turn {move : Move} (turns : watching.turn? move = some (stage, moment)) :
    stage = watching.stage ∨ stage = .resting ∨
    (watching.current ≠ watching.watch.known ∧ stage = .due ⟨watching.current, watching.steps⟩) ∨
    (∃ current, watching.stage = .due current ∧ stage = .admitted current) ∨
    (∃ current, watching.stage = .admitted current ∧
      stage = .scanning current watching.steps (watching.watch.builder.sources watching.tree) fun _ => none) ∨
    ∃ current begun paths found path, watching.stage = .scanning current begun paths found ∧
      stage = .scanning current begun paths fun other =>
        if other = path then some (watching.watch.builder.scanFile watching.tree path) else found other := by
  cases move with
  | wait time =>
    cases turns
    exact .inl rfl
  | tick =>
    cases before : watching.stage <;> simp only [turn?, before, reduceCtorEq] at turns
    split at turns
    case isTrue =>
      cases turns
      exact .inl rfl
    case isFalse changed =>
      cases turns
      exact .inr (.inr (.inl ⟨changed, rfl⟩))
  | drop =>
    cases before : watching.stage <;> simp only [turn?, before, reduceCtorEq] at turns
    split at turns <;> cases turns
    exact .inr (.inl rfl)
  | launch =>
    cases before : watching.stage <;> simp only [turn?, before, reduceCtorEq] at turns
    split at turns <;> cases turns
    exact .inr (.inr (.inr (.inl ⟨_, rfl, rfl⟩)))
  | list =>
    cases before : watching.stage <;> simp only [turn?, before, reduceCtorEq] at turns
    cases turns
    exact .inr (.inr (.inr (.inr (.inl ⟨_, rfl, rfl⟩))))
  | read path =>
    cases before : watching.stage <;> simp only [turn?, before, reduceCtorEq] at turns
    split at turns <;> cases turns
    exact .inr (.inr (.inr (.inr (.inr ⟨_, _, _, _, path, rfl, rfl⟩))))
  | abort =>
    cases before : watching.stage <;> simp only [turn?, before, reduceCtorEq] at turns <;> cases turns <;>
      exact .inr (.inl rfl)
  | edit | save | finish => cases turns

/-- **The stage that a watch turns to fits.** -/
theorem Sound.fits_turn (sound : watching.Sound) {move : Move}
    (turns : watching.turn? move = some (stage, moment)) : (watching.turn stage moment).Fits stage := by
  have fits := sound.fits
  rcases cases_of_turn turns with rfl | rfl | ⟨changed, rfl⟩ | ⟨current, before, rfl⟩ |
    ⟨current, before, rfl⟩ | ⟨current, begun, paths, found, path, before, rfl⟩
  · exact fits.turn
  · trivial
  · exact ⟨sound.holds_current, changed⟩
  · rw [before] at fits
    exact Holds.turn fits.1
  · rw [before] at fits
    exact ⟨Holds.turn fits, Holds.taken fits, fun _ => ⟨rfl, fun _ _ _ read => nomatch read⟩⟩
  · rw [before] at fits
    exact (fits.read path).turn

/-- **What holds of a watch holds after a move.** -/
theorem Sound.step (sound : watching.Sound) {move : Move} (steps : watching.step? move = some next) :
    next.Sound := by
  rcases cases_of_step steps with ⟨stage, moment, turns, rfl⟩ | ⟨tree, allowed, rfl⟩ |
    ⟨tree, current, begun, paths, found, scanning, whole, allowed, rfl⟩ | ⟨current, built, -, saved, rfl⟩
  · exact sound.turn (sound.fits_turn turns)
  · exact sound.pass allowed (sound.fits.become sound allowed)
  · have fits := sound.fits
    rw [scanning] at fits
    have covers := sound.covers_gather scanning whole
    exact sound.pass allowed ⟨fits.1.become allowed, covers.become fits.1.seen allowed⟩
  · have fits := sound.fits
    rw [saved] at fits
    exact sound.close fits.1 fits.2

theorem Sound.run (sound : watching.Sound) {moves : List Move} (runs : watching.run? moves = some next) :
    next.Sound := by
  induction moves generalizing watching with
  | nil =>
    cases runs
    exact sound
  | cons move rest ih =>
    obtain ⟨middle, first, others⟩ := Option.bind_eq_some_iff.mp runs
    exact ih (sound.step first) others

theorem sound_start (project : Project) (options : BuildOptions) (scanner : SourceScanner) (minDelay now : Nat)
    (tree : FileTree) : (start project options scanner minDelay now tree).Sound where
  seen := List.mem_singleton_self _
  edits := List.forall_mem_nil _
  known := ⟨List.mem_singleton_self _, Nat.one_pos, fun _ => List.forall_mem_nil _⟩
  fits := ⟨List.mem_singleton_self _, Nat.one_pos, fun _ => List.forall_mem_nil _⟩
  last none := nomatch none

/-! ### Between two builds -/

/-- Until a build ends, the known stamps stay, and sources that change get stamps that they never had. -/
theorem watch_of_step {move : Move} (steps : watching.step? move = some next) (unfinished : move ≠ .finish) :
    next.watch = watching.watch ∧ (next.current = watching.current ∨ next.current ∉ watching.seen) := by
  have passes {tree : FileTree} (allowed : watching.allows tree = true) :
      (watching.become tree).current = watching.current ∨ (watching.become tree).current ∉ watching.seen :=
    (allows_iff.mp allowed).imp SourceScanner.fingerprint_congr id
  rcases cases_of_step steps with ⟨stage, moment, -, rfl⟩ | ⟨tree, allowed, rfl⟩ |
    ⟨tree, current, begun, paths, found, -, -, allowed, rfl⟩ | ⟨current, built, ends, -⟩
  · exact ⟨rfl, .inl rfl⟩
  · exact ⟨rfl, passes allowed⟩
  · exact ⟨rfl, passes allowed⟩
  · exact absurd ends unfinished

/-- A trigger that is dropped was due, and nothing but the stage changes. -/
theorem due_of_drop (drops : watching.step? .drop = some next) :
    (∃ current, watching.stage = .due current) ∧ next = watching.turn .resting watching.moment := by
  obtain ⟨acted, acts, rfl⟩ := Option.map_eq_some_iff.mp drops
  simp only [act?] at acts
  obtain ⟨⟨stage, moment⟩, turns, rfl⟩ := Option.map_eq_some_iff.mp acts
  cases before : watching.stage with
  | due current =>
    rw [turn?, before] at turns
    dsimp only at turns
    split at turns <;> cases turns
    exact ⟨⟨current, rfl⟩, rfl⟩
  | _ => simp [turn?, before] at turns

/-- A look at sources with other stamps than the known ones calls for a build. -/
theorem step?_tick (resting : watching.stage = .resting) (unknown : watching.current ≠ watching.watch.known) :
    watching.step? .tick = some (watching.turn (.due ⟨watching.current, watching.steps⟩) watching.moment) := by
  have turns : watching.turn? .tick = some (.due ⟨watching.current, watching.steps⟩, watching.moment) := by
    rw [turn?, resting]
    exact if_neg unknown
  simp only [step?, act?, turns, Option.map_some]
  rfl

/-- Sources with other stamps than the known ones keep to other stamps until a build ends. -/
theorem Sound.unknown_run (sound : watching.Sound) (unknown : watching.current ≠ watching.watch.known)
    {moves : List Move} (unfinished : .finish ∉ moves) (runs : watching.run? moves = some next) :
    next.watch = watching.watch ∧ next.current ≠ next.watch.known := by
  induction moves generalizing watching with
  | nil =>
    cases runs
    exact ⟨rfl, unknown⟩
  | cons move rest ih =>
    obtain ⟨middle, first, others⟩ := Option.bind_eq_some_iff.mp runs
    obtain ⟨same, stamps⟩ := watch_of_step first fun ends => unfinished (ends ▸ List.mem_cons_self)
    have still : middle.current ≠ middle.watch.known := by
      rw [same]
      rcases stamps with kept | new
      · exact kept ▸ unknown
      · exact fun known => new (known ▸ sound.known.seen)
    obtain ⟨watch, later⟩ :=
      ih (sound.step first) still (fun ends => unfinished (List.mem_cons_of_mem _ ends)) others
    exact ⟨watch.trans same, later⟩

/-- **A watch misses no change of its sources.** Its last build began to scan behind the look that took the
known stamps. So if the sources have these, they did not change since that look, and the build scanned what
they hold. A trigger that is dropped leaves the known stamps as they are, and until a build ends every look
calls for one. -/
theorem last_of_run {project : Project} {options : BuildOptions} {scanner : SourceScanner} {minDelay now : Nat}
    {moves : List Move} (runs : (start project options scanner minDelay now tree).run? moves = some watching) :
    (0 < watching.watch.builds → ∃ built, watching.last = some built ∧ watching.knownSince < built.begun ∧
      (watching.current = watching.watch.known → (∀ edit ∈ watching.edits, edit < watching.knownSince) ∧
        built.scan = watching.watch.builder.scan watching.tree)) ∧
      ∀ dropped, watching.step? .drop = some dropped → dropped.watch = watching.watch ∧
        ∀ rest later, .finish ∉ rest → dropped.run? rest = some later → later.watch = watching.watch ∧
          (later.stage = .resting → ∃ looked, later.step? .tick = some looked ∧
            looked.stage = .due ⟨later.current, later.steps⟩) := by
  have sound := (sound_start project options scanner minDelay now tree).run runs
  refine ⟨fun ran => ?_, fun dropped drops => ?_⟩
  · obtain ⟨built, last, covers⟩ := sound.last ran
    exact ⟨built, last, covers.behind, fun same => ⟨sound.known.still same, covers.exact same⟩⟩
  · obtain ⟨⟨current, due⟩, rfl⟩ := due_of_drop drops
    have fits := sound.fits
    rw [due] at fits
    refine ⟨rfl, fun rest later unfinished runs => ?_⟩
    obtain ⟨same, unknown⟩ := (sound.step drops).unknown_run fits.2 unfinished runs
    exact ⟨same, fun resting => ⟨_, step?_tick resting unknown, rfl⟩⟩

/-- A watch of a project of one source, whose builds do not merge. -/
def sampleStart (scanner : SourceScanner) : Watching :=
  start Project.sample ⟨false, false⟩ scanner 500 0 (Project.sampleTree "[[[Hi]]]")

/-- The first build is aborted, the source changes, and the next look calls for a build that scans it. -/
def editedMoves : List Move :=
  [.abort, .edit (Project.sampleTree "[[[Hello]]]"), .tick, .launch, .list, .read ⟨"/a.html"⟩, .save, .finish]

/-- The source changes again, and a look that comes within the quiet time is in vain. -/
def droppedMoves : List Move :=
  editedMoves ++ [.edit (Project.sampleTree "[[[Goodbye]]]"), .tick]

theorem last_of_run_editedMoves :
    ∃ scanner built early dropped, SourceScanner.ofProject Project.sample false = .ok scanner ∧
      (sampleStart scanner).run? editedMoves = some built ∧ built.watch.builds = 1 ∧ built.edits = [2] ∧
      (∃ scan, built.last = some scan ∧ built.knownSince < scan.begun ∧
        scan.scan = built.watch.builder.scan built.tree ∧ ∀ edit ∈ built.edits, edit < built.knownSince) ∧
      (sampleStart scanner).run? droppedMoves = some early ∧ early.step? .drop = some dropped ∧
      dropped.watch = early.watch ∧ ∃ looked, dropped.step? .tick = some looked ∧
        looked.stage = .due ⟨dropped.current, dropped.steps⟩ := by
  have checked : ((SourceScanner.ofProject Project.sample false).toOption.any fun scanner =>
      (((sampleStart scanner).run? editedMoves).any fun built =>
        built.watch.builds = 1 && built.edits = [2] && decide (built.current = built.watch.known)) &&
      ((sampleStart scanner).run? droppedMoves).any fun early => (early.step? .drop).isSome) = true := by
    decide +kernel
  obtain ⟨scanner, made, runs⟩ := exists_of_any_toOption _ _ checked
  rw [Bool.and_eq_true] at runs
  obtain ⟨built, first, facts⟩ := (Option.any_eq_true _ _).mp runs.1
  obtain ⟨early, second, drops⟩ := (Option.any_eq_true _ _).mp runs.2
  obtain ⟨dropped, drop⟩ := Option.isSome_iff_exists.mp drops
  simp only [Bool.and_eq_true, decide_eq_true_eq] at facts
  obtain ⟨⟨builds, edits⟩, same⟩ := facts
  obtain ⟨scan, last, behind, covers⟩ := (last_of_run first).1 (builds ▸ Nat.one_pos)
  obtain ⟨watch, later⟩ := (last_of_run second).2 dropped drop
  have rests : dropped.stage = .resting := by rw [(due_of_drop drop).2, turn]
  obtain ⟨looked, looks, due⟩ := (later [] dropped List.not_mem_nil rfl).2 rests
  exact ⟨scanner, built, early, dropped, made, first, builds, edits,
    ⟨scan, last, behind, (covers same).2, (covers same).1⟩, second, drop, watch, looked, looks, due⟩

end Watching

end Localization

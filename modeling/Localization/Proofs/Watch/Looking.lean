import Localization.Proofs.Watch

/-
**A look at the sources, step by step.**

Where nothing happens between its steps, a look at the sources is what the steps of a watch make of it: they
list the sources, read each of them and save the scan.

* `SourceScanner.ofProject_showContext` — the scanners of a watch and of its builds.
* `Watching.run_build` — a build as moves.
* `Watching.run_start`, `run_look` — the first build, and a look.
-/

namespace Localization

/-- The scanner of a project is the same but for the lines of the sources. -/
theorem SourceScanner.ofProject_showContext {project : Project} {showContext : Bool} {scanner : SourceScanner}
    (made : ofProject project showContext = .ok scanner) (other : Bool) :
    ofProject project other = .ok { scanner with showContext := other } := by
  unfold ofProject at made ⊢
  cases filter : (SourceFilter.ofSettings project.directory project.settings).mapError ScanError.filter with
  | error error =>
    rw [filter] at made
    cases made
  | ok filter =>
    rw [filter] at made
    cases markup : (Markup.ofTokens project.settings.tokens).mapError ScanError.tokens with
    | error error =>
      rw [markup] at made
      cases made
    | ok markup =>
      rw [markup] at made
      cases made
      rfl

theorem SourceScanner.sources_nodup (scanner : SourceScanner) (tree : FileTree) :
    (scanner.sources tree).Nodup := by
  refine (Path.sortDistinct_sorted _).1.imp fun {first second} before same => ?_
  rw [same, Path.before, Path.componentsBefore_irrefl] at before
  cases before

namespace Watching

variable {watching next : Watching} {tree : FileTree}

theorem run?_cons {move : Move} (first : watching.step? move = some next) (rest : List Move) :
    watching.run? (move :: rest) = next.run? rest := by
  rw [run?, List.foldlM_cons, first]
  rfl

/-- Sources that are not read yet are read one after the other. -/
theorem run_reads {current : Snapshot} {begun : Nat} {paths : List Path} {found : Path → Option Findings}
    (scanning : watching.stage = .scanning current begun paths found) {rest : List Path} (nodup : rest.Nodup)
    (inside : ∀ path ∈ rest, path ∈ paths) (unread : ∀ path ∈ rest, found path = none) :
    ∃ steps read, watching.run? (rest.map .read) =
        some { watching with stage := .scanning current begun paths read, steps := steps } ∧
      (∀ path ∈ rest, read path = some (watching.watch.builder.scanFile watching.tree path)) ∧
      ∀ path, path ∉ rest → read path = found path := by
  induction rest generalizing watching found with
  | nil =>
    refine ⟨watching.steps, found, ?_, List.forall_mem_nil _, fun _ _ => rfl⟩
    rw [← scanning]
    rfl
  | cons path rest ih =>
    let readings (other : Path) : Option Findings :=
      if other = path then some (watching.watch.builder.scanFile watching.tree path) else found other
    let turned := watching.turn (.scanning current begun paths readings) watching.moment
    have first : watching.step? (.read path) = some turned := by
      have fresh : path ∈ paths ∧ found path = none :=
        ⟨inside path List.mem_cons_self, unread path List.mem_cons_self⟩
      simp only [step?, act?, turn?, scanning, if_pos fresh, Option.map_some]
      rfl
    obtain ⟨outside, apart⟩ := List.nodup_cons.mp nodup
    have scans : turned.stage = .scanning current begun paths readings := rfl
    obtain ⟨steps, read, runs, done, others⟩ := ih scans apart
      (fun other member => inside other (List.mem_cons_of_mem path member))
      (fun other member => (if_neg fun same : other = path => outside (same ▸ member)).trans
        (unread other (List.mem_cons_of_mem path member)))
    refine ⟨steps, read, ?_, fun other member => ?_, fun other absent => ?_⟩
    · rw [List.map_cons, run?_cons first]
      exact runs
    · rcases List.mem_cons.mp member with rfl | later
      · exact (others other outside).trans (if_pos rfl)
      · exact done other later
    · rw [others other fun later => absent (List.mem_cons_of_mem path later)]
      exact if_neg fun same : other = path => absent (same ▸ List.mem_cons_self)

theorem step?_save {current : Snapshot} {begun : Nat} {paths : List Path} {found : Path → Option Findings}
    (scanning : watching.stage = .scanning current begun paths found)
    (whole : ∀ path ∈ paths, found path ≠ none) {left : FileTree} (allowed : watching.allows left = true)
    (saves : (watching.watch.project.buildScanned watching.watch.options (gather paths found)
      watching.tree).2 = left) :
    watching.step? .save = some (watching.pass left (.saved current ⟨begun, gather paths found⟩)) := by
  subst saves
  simp only [step?, act?, scanning, if_pos (And.intro whole allowed), Option.map_some]
  rfl

theorem step?_finish {current : Snapshot} {built : BuildScan} (saved : watching.stage = .saved current built) :
    watching.step? .finish = some (watching.close current built) := by
  simp only [step?, act?, saved, Option.map_some]
  rfl

/-- **A build that nothing comes between**: the sources are listed, read in their order and saved. -/
theorem run_build {current : Snapshot} (admitted : watching.stage = .admitted current)
    (made : SourceScanner.ofProject watching.watch.project false = .ok watching.watch.scanner)
    (allowed : watching.allows (watching.watch.project.build watching.watch.options watching.tree).2 = true) :
    ∃ moves later, watching.run? moves = some later ∧ later.stage = .resting ∧
      later.moment = watching.moment.finish true ∧
      (later.watch, later.tree) = { watching.watch with known := current.stamps }.build watching.tree := by
  let paths := watching.watch.builder.sources watching.tree
  let listed := watching.turn (.scanning current watching.steps paths fun _ => none) watching.moment
  have lists : watching.step? .list = some listed := by
    simp only [step?, act?, turn?, admitted, Option.map_some]
    rfl
  have scans : listed.stage = .scanning current watching.steps paths fun _ => none := rfl
  obtain ⟨steps, found, reads, all, -⟩ := run_reads scans
    (SourceScanner.sources_nodup watching.watch.builder watching.tree) (fun _ member => member) fun _ _ => rfl
  let read : Watching := { listed with stage := .scanning current watching.steps paths found, steps := steps }
  have builds :
      (watching.watch.project.buildScanned watching.watch.options (gather paths found) watching.tree).2 =
        (watching.watch.project.build watching.watch.options watching.tree).2 := by
    rw [Project.build, SourceScanner.ofProject_showContext made, SourceScanner.gather_eq_scan all]
    rfl
  let built : BuildScan := ⟨watching.steps, gather paths found⟩
  have done : read.stage = .scanning current watching.steps paths found := rfl
  have saves := step?_save done
    (fun path member => Option.ne_none_iff_exists'.mpr ⟨_, all path member⟩) allowed builds
  let saved :=
    read.pass (watching.watch.project.build watching.watch.options watching.tree).2 (.saved current built)
  have last : read.run? [.save, .finish] = some (saved.close current built) :=
    (run?_cons saves _).trans (run?_cons (step?_finish rfl) [])
  refine ⟨.list :: (paths.map .read ++ [.save, .finish]), saved.close current built, ?_, rfl, rfl, rfl⟩
  rw [run?] at reads
  rw [run?_cons lists, run?, List.foldlM_append, reads]
  exact last

/-- **The start of a watch**: the first build with nothing between its steps. -/
theorem run_start {project : Project} {options : BuildOptions} {left : FileTree} {watch : Watch}
    {minDelay now : Nat}
    (starts : Watch.start project options tree = .ok (watch, left))
    (allowed : ∀ scanner, SourceScanner.ofProject project false = .ok scanner →
      (start project options scanner minDelay now tree).allows left = true) :
    ∃ scanner moves later, SourceScanner.ofProject project false = .ok scanner ∧
      (start project options scanner minDelay now tree).run? moves = some later ∧
      later.watch = watch ∧ later.tree = left ∧ later.stage = .resting := by
  cases made : SourceScanner.ofProject project false with
  | error error =>
    rw [Watch.start, made] at starts
    cases starts
  | ok scanner =>
    rw [Watch.start, made] at starts
    obtain ⟨rfl, rfl⟩ := Prod.ext_iff.mp (Except.ok.inj starts)
    have admitted : (start project options scanner minDelay now tree).stage =
        .admitted ⟨Watch.fingerprint scanner tree, 0⟩ := rfl
    obtain ⟨moves, later, runs, resting, -, same⟩ := run_build admitted made (allowed scanner made)
    obtain ⟨watch, tree⟩ := Prod.ext_iff.mp same
    exact ⟨scanner, moves, later, rfl, runs, watch, tree, resting⟩

/-- **A look of a watch at rest**, with nothing between its steps and long enough behind the last build. -/
theorem run_look (resting : watching.stage = .resting) (admits : watching.admits = true)
    (made : SourceScanner.ofProject watching.watch.project false = .ok watching.watch.scanner)
    (allowed : watching.allows (watching.watch.look watching.tree).2 = true) :
    ∃ moves later, watching.run? moves = some later ∧ later.stage = .resting ∧
      (later.watch, later.tree) = watching.watch.look watching.tree := by
  by_cases same : watching.current = watching.watch.known
  · refine ⟨[], watching, rfl, resting, ?_⟩
    rw [Watch.look]
    exact (if_pos same).symm
  · let due := watching.turn (.due ⟨watching.current, watching.steps⟩) watching.moment
    let admitted := due.turn (.admitted ⟨watching.current, watching.steps⟩)
      { watching.moment with scheduler := watching.moment.scheduler.acquire }
    have looks : watching.step? .tick = some due := step?_tick resting same
    have runs : due.step? .launch = some admitted := by
      have still : due.admits = true := admits
      simp only [step?, act?, turn?, still]
      rfl
    have builds : watching.watch.look watching.tree =
        { watching.watch with known := watching.current }.build watching.tree := if_neg same
    rw [builds] at allowed ⊢
    have stands : admitted.stage = .admitted ⟨watching.current, watching.steps⟩ := rfl
    obtain ⟨moves, later, others, rests, -, both⟩ := run_build stands made allowed
    refine ⟨.tick :: .launch :: moves, later, ?_, rests, both⟩
    rw [run?_cons looks, run?_cons runs, others]

end Watching

end Localization

import Localization.Proofs.Build

/-
**Settings in effect can be used.**

Settings are checked before they come into effect, and the scanner of a project checks patterns and tokens
on its own. The two agree: a scanner is made of all settings in which no problem is found.

* `Settings.Usable` — settings without a problem; `problems_eq_nil_iff`.
* `SourceFilter.readPatterns_eq_error_iff` — patterns are read up to the first one that is at fault.
* `SourceScanner.exists_ofProject_iff` — when a project has a scanner.
* `Project.usable_of_reloads` — what holds of a project however often its settings were loaded.
-/

namespace Localization

/-! ### Settings without a problem -/

namespace Settings

/-- A text is a pattern. -/
def IsPattern (pattern : String) : Prop := ∃ glob, Glob.ofPattern .plain pattern = .ok glob

/-- Settings in which no field is at fault. -/
structure Usable (settings : Settings) : Prop where
  locale : Text.trim settings.localeDirectory.toList ≠ []
  directories : settings.directoriesToScan ≠ []
  patterns : settings.includePatterns ≠ []
  includes : ∀ pattern ∈ settings.includePatterns, IsPattern pattern
  excludes : ∀ pattern ∈ settings.excludePatterns, IsPattern pattern
  tokens : settings.tokens.check = .ok ()
  languages : ∀ name ∈ settings.languages, Culture.isKnown name = true
  threads : settings.threadCount ≠ some 0

theorem badPatterns_eq_nil_iff (index : Nat) {patterns : List String} :
    badPatterns index patterns = [] ↔ ∀ pattern ∈ patterns, IsPattern pattern := by
  induction patterns generalizing index with
  | nil => simp [badPatterns]
  | cons pattern rest ih =>
    rw [badPatterns, List.forall_mem_cons, ← ih (index + 1), IsPattern]
    cases read : Glob.ofPattern .plain pattern with
    | ok glob => simp
    | error error => simp

theorem unknownCultures_eq_nil_iff (index : Nat) {names : List String} :
    unknownCultures index names = [] ↔ ∀ name ∈ names, Culture.isKnown name = true := by
  induction names generalizing index with
  | nil => simp [unknownCultures]
  | cons name rest ih =>
    rw [unknownCultures, List.forall_mem_cons, ← ih (index + 1)]
    cases Culture.isKnown name <;> simp

theorem problemIf_eq_nil_iff {condition : Bool} {problem : SettingsProblem} :
    problemIf condition problem = [] ↔ condition = false := by
  cases condition <;> simp [problemIf]

theorem problem?_eq_none_iff {tokens : Tokens} : tokens.problem? = none ↔ tokens.check = .ok () := by
  unfold Tokens.check
  cases tokens.problem? <;> simp

/-- **No problem is found exactly in usable settings.** -/
theorem problems_eq_nil_iff {settings : Settings} : settings.problems = [] ↔ settings.Usable := by
  simp only [problems, List.append_eq_nil_iff, List.map_eq_nil_iff, problemIf_eq_nil_iff,
    badPatterns_eq_nil_iff, unknownCultures_eq_nil_iff, Option.toList_eq_nil_iff, problem?_eq_none_iff,
    List.isEmpty_eq_false_iff, decide_eq_false_iff_not]
  constructor
  · rintro ⟨⟨⟨⟨⟨⟨⟨locale, directories⟩, patterns⟩, includes⟩, excludes⟩, tokens⟩, languages⟩, threads⟩
    exact ⟨locale, directories, patterns, includes, excludes, tokens, languages, threads⟩
  · rintro ⟨locale, directories, patterns, includes, excludes, tokens, languages, threads⟩
    exact ⟨⟨⟨⟨⟨⟨⟨locale, directories⟩, patterns⟩, includes⟩, excludes⟩, tokens⟩, languages⟩, threads⟩

/-- The settings of a project that chooses nothing are usable. -/
theorem problems_standard : standard.problems = [] := by decide +kernel

end Settings

/-! ### Filters and scanners -/

/-- What is made of two parts can be made if both of them can, however their errors are reported. -/
theorem both_return_iff {α β γ δ ε ζ : Type} {first : Except δ α} {second : Except ε β} {ofFirst : δ → ζ}
    {ofSecond : ε → ζ} {make : α → β → γ} :
    (∃ whole, ((first.mapError ofFirst).bind fun front =>
        (second.mapError ofSecond).bind fun back => .ok (make front back)) = .ok whole) ↔
      (∃ front, first = .ok front) ∧ ∃ back, second = .ok back := by
  constructor
  · rintro ⟨whole, made⟩
    cases first with
    | error fault => cases made
    | ok front =>
      cases second with
      | error fault => cases made
      | ok back => exact ⟨⟨front, rfl⟩, back, rfl⟩
  · rintro ⟨⟨front, rfl⟩, back, rfl⟩
    exact ⟨_, rfl⟩

/-- **Patterns are read up to the first one that is at fault**, which is the first one that the check of the
settings reports. -/
theorem SourceFilter.readPatterns_eq_error_iff {patterns : List String} {error : GlobError} (index : Nat) :
    readPatterns patterns = .error error ↔
      ((Settings.badPatterns index patterns).map (·.2)).head? = some error := by
  induction patterns generalizing index with
  | nil => simp [readPatterns, Settings.badPatterns]
  | cons pattern rest ih =>
    rw [readPatterns, Settings.badPatterns]
    cases read : Glob.ofPattern .plain pattern with
    | error fault => simp [bind, Except.bind]
    | ok glob =>
      rw [← ih (index + 1)]
      cases readPatterns rest <;> simp [bind, Except.bind]

theorem SourceFilter.exists_readPatterns_iff {patterns : List String} :
    (∃ globs, readPatterns patterns = .ok globs) ↔ ∀ pattern ∈ patterns, Settings.IsPattern pattern := by
  have good : Settings.badPatterns 0 patterns = [] ↔ ∀ error, readPatterns patterns ≠ .error error := by
    simp only [Ne, readPatterns_eq_error_iff 0, ← Option.eq_none_iff_forall_ne_some, List.head?_eq_none_iff,
      List.map_eq_nil_iff]
  rw [← Settings.badPatterns_eq_nil_iff, good]
  cases readPatterns patterns <;> simp

theorem SourceFilter.exists_ofSettings_iff (directory : Path) {settings : Settings} :
    (∃ filter, ofSettings directory settings = .ok filter) ↔
      (∀ pattern ∈ settings.includePatterns, Settings.IsPattern pattern) ∧
      ∀ pattern ∈ settings.excludePatterns, Settings.IsPattern pattern := by
  rw [← exists_readPatterns_iff, ← exists_readPatterns_iff]
  exact both_return_iff

theorem Markup.exists_ofTokens_iff {tokens : Tokens} :
    (∃ markup, ofTokens tokens = .ok markup) ↔ tokens.check = .ok () := by
  unfold ofTokens
  constructor
  · rintro ⟨markup, made⟩
    split at made
    · assumption
    · cases made
  · intro accepted
    split
    · exact ⟨_, rfl⟩
    · rename_i refused
      cases accepted.symm.trans refused

/-- **A project has a scanner exactly if the check of its settings finds nothing wrong with the patterns and
the tokens.** -/
theorem SourceScanner.exists_ofProject_iff {project : Project} (showContext : Bool) :
    (∃ scanner, ofProject project showContext = .ok scanner) ↔
      ((∀ pattern ∈ project.settings.includePatterns, Settings.IsPattern pattern) ∧
        ∀ pattern ∈ project.settings.excludePatterns, Settings.IsPattern pattern) ∧
      project.settings.tokens.check = .ok () := by
  rw [← SourceFilter.exists_ofSettings_iff project.directory, ← Markup.exists_ofTokens_iff]
  exact both_return_iff

/-- The scanner of a project has as many threads as the settings say. -/
theorem SourceScanner.threads_ofProject {project : Project} {showContext : Bool} {scanner : SourceScanner}
    (made : ofProject project showContext = .ok scanner) :
    scanner.threads = project.settings.threads standardThreads := by
  unfold ofProject at made
  cases filter : SourceFilter.ofSettings project.directory project.settings <;> rw [filter] at made
  · cases made
  · cases markup : Markup.ofTokens project.settings.tokens <;> rw [markup] at made
    · cases made
    · cases made
      rfl

/-! ### Projects -/

namespace Project

variable {project : Project} {tree : FileTree} {file : Option Path} {loaded : Project}

/-- Settings are loaded that can be read and have no problem. -/
theorem load_eq_ok_iff :
    project.load tree file = .ok loaded ↔
      ∃ settings, readSettings tree (file.getD (project.directory.join settingsName)) = .ok settings ∧
        settings.problems = [] ∧ loaded = { project with settings := settings } := by
  unfold load
  cases readSettings tree (file.getD (project.directory.join settingsName)) with
  | error error => exact ⟨nofun, fun ⟨_, same, _⟩ => nomatch same⟩
  | ok settings =>
    by_cases good : settings.problems = []
    · simp only [bind, Except.bind, if_pos good]
      constructor
      · intro same
        cases same
        exact ⟨settings, rfl, good, rfl⟩
      · rintro ⟨_, same, -, rfl⟩
        cases same
        rfl
    · simp only [bind, Except.bind, if_neg good]
      refine ⟨nofun, ?_⟩
      rintro ⟨_, same, usable, -⟩
      cases same
      exact absurd usable good

/-- Settings that cannot be loaded leave those in effect. -/
theorem reload_of_error {error : SettingsError} (failed : (project.reload tree file).1 = .error error) :
    (project.reload tree file).2 = project := by
  unfold reload at failed ⊢
  cases loads : project.load tree file with
  | ok loaded =>
    rw [loads] at failed
    cases failed
  | error cause => rfl

/-- **Settings in effect stay usable.** -/
theorem problems_reload (usable : project.settings.problems = []) (tree : FileTree) (file : Option Path) :
    (project.reload tree file).2.settings.problems = [] := by
  unfold reload
  cases loads : project.load tree file with
  | error cause => exact usable
  | ok loaded =>
    obtain ⟨settings, -, good, rfl⟩ := load_eq_ok_iff.mp loads
    exact good

/-- The project after its settings were loaded again and again. -/
def reloads (project : Project) (loads : List (FileTree × Option Path)) : Project :=
  loads.foldl (fun project (tree, file) => (project.reload tree file).2) project

theorem problems_reloads (usable : project.settings.problems = []) (loads : List (FileTree × Option Path)) :
    (project.reloads loads).settings.problems = [] := by
  induction loads generalizing project with
  | nil => exact usable
  | cons first rest ih => exact ih (problems_reload usable first.1 first.2)

/-- A project with usable settings has a scanner, with at least one thread. -/
theorem exists_scanner (usable : project.settings.Usable) (showContext : Bool) :
    ∃ scanner, SourceScanner.ofProject project showContext = .ok scanner ∧ 0 < scanner.threads := by
  obtain ⟨scanner, made⟩ := (SourceScanner.exists_ofProject_iff showContext).mpr
    ⟨⟨usable.includes, usable.excludes⟩, usable.tokens⟩
  refine ⟨scanner, made, ?_⟩
  rw [SourceScanner.threads_ofProject made]
  exact Nat.le_max_left 1 _

/-- A build of a project with usable settings fails only where its template cannot be saved. -/
theorem unsaved_of_usable (usable : project.settings.Usable) {options : BuildOptions} {left : FileTree}
    {error : BuildError} (failed : project.build options tree = (.error error, left)) :
    ∃ scanner cause, SourceScanner.ofProject project options.showContext = .ok scanner ∧
      project.locale.saveTemplate tree (scanner.scan tree).items = (.error cause, left) ∧
      error = .store cause := by
  obtain ⟨scanner, made, -⟩ := exists_scanner usable options.showContext
  obtain ⟨cause, saved, same⟩ := unsaved_of_build made failed
  exact ⟨scanner, cause, made, saved, same⟩

/-- **Settings in effect can be used.** However often settings were loaded, from whatever files, no problem is
found in those in effect, and loading that fails leaves them. The project has a scanner with at least one
thread, and a build of it fails only where its template cannot be saved. -/
theorem usable_of_reloads (directory : Path) (loads : List (FileTree × Option Path)) :
    let project := (ofDirectory directory).reloads loads
    project.settings.problems = [] ∧
      (∀ tree file error, (project.reload tree file).1 = .error error →
        (project.reload tree file).2 = project) ∧
      (∀ available, 0 < project.settings.threads available) ∧
      (∀ showContext, ∃ scanner, SourceScanner.ofProject project showContext = .ok scanner ∧
        0 < scanner.threads) ∧
      ∀ options tree error left, project.build options tree = (.error error, left) →
        ∃ scanner cause, SourceScanner.ofProject project options.showContext = .ok scanner ∧
          project.locale.saveTemplate tree (scanner.scan tree).items = (.error cause, left) ∧
          error = .store cause := by
  have standard : (ofDirectory directory).settings.problems = [] := Settings.problems_standard
  have good : ((ofDirectory directory).reloads loads).settings.problems = [] :=
    problems_reloads standard loads
  generalize (ofDirectory directory).reloads loads = project at good ⊢
  have usable := Settings.problems_eq_nil_iff.mp good
  exact ⟨good, fun _ _ _ => reload_of_error, fun _ => Nat.le_max_left 1 _, exists_scanner usable,
    fun _ _ _ _ => unsaved_of_usable usable⟩

end Project

end Localization

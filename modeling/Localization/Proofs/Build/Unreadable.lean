import Localization.Proofs.Build.Rebuilding
import Localization.Proofs.FileTree.Readings

/-
**Files that cannot be read are not overwritten.**

Whatever saves a catalog reads the file first, and stops if it cannot be read. This spares a file on
whose path it is found. One that is missed, behind a missing directory, is overwritten once the
directory has been made.

* `Content.Unreadable` — what a file holds that is no catalog.
* `Spares` — an unreadable file stays as it is, and an error tells of every attempt to write it.
* `spares_rewrite`, `spares_mergeAll`, `spares_build` — saves, merges and builds spare such a file.
* `overwritten_of_rewrite` — a file that is overwritten nevertheless was missed.
* `StoreCall.spares_runAll` — sequences of all these.
-/

namespace Localization

open FileTree

/-- What a file holds that cannot be read as a catalog. -/
def Content.Unreadable : Content → Prop
  | .text words => ∀ catalog, Catalog.parse words ≠ .ok catalog
  | .binary _ => True

/-- The path that an error is about. -/
def StoreError.path : StoreError → Path
  | .access failure => failure.path
  | .malformed path _ => path

/-- The error that there is, if there is one. -/
def errorsOf {α : Type} : Except StoreError α → List StoreError
  | .ok _ => []
  | .error error => [error]

/-- A file is left as it is, and there is an error for every path on which it was to be written. -/
structure Spares (place : Place) (tree left : FileTree) (written : Path → Prop)
    (errors : List StoreError) : Prop where
  grows : Grows (· ≠ place) tree left
  refuses : ∀ path, written path → tree.Aims path place → ∃ error ∈ errors, error.path = path

section Sparing

variable {tree middle left : FileTree} {path : Path} {place : Place} {content : Content} {stamp : Nat}
  {first second : Path → Prop} {early late : List StoreError}

/-- What writes nothing spares every file. -/
theorem Spares.idle (place : Place) (tree : FileTree) (errors : List StoreError)
    (nothing : ∀ path, ¬ first path) : Spares place tree tree first errors where
  grows := Grows.refl _ tree
  refuses path written := absurd written (nothing path)

theorem Spares.mono (spares : Spares place tree left second early)
    (fewer : ∀ path, first path → second path) : Spares place tree left first early where
  grows := spares.grows
  refuses path written := spares.refuses path (fewer path written)

theorem Spares.trans (before : Spares place tree middle first early)
    (after : Spares place middle left second late) :
    Spares place tree left (fun path => first path ∨ second path) (early ++ late) where
  grows := before.grows.trans after.grows
  refuses path written aims := by
    rcases written with sooner | later
    · obtain ⟨error, inside, own⟩ := before.refuses path sooner aims
      exact ⟨error, List.mem_append_left late inside, own⟩
    · obtain ⟨error, inside, own⟩ := after.refuses path later (before.grows.aims.mpr aims)
      exact ⟨error, List.mem_append_right early inside, own⟩

/-- What is spared stays where it is. -/
theorem Spares.file (spares : Spares place tree left first early)
    (file : tree.get? place = some (.file content stamp)) :
    left.get? place = some (.file content stamp) :=
  (spares.grows.elsewhere (not_not_intro rfl)).mpr file

/-! ### Saving catalogs -/

namespace Catalog

variable {α : Type} {text : Catalog → String} {report : Catalog → Bool → α}

/-- An unreadable file is not taken for a catalog, nor for a missing one, unless it is missed. -/
theorem load_of_unreadable (file : tree.get? place = some (.file content stamp))
    (bad : content.Unreadable) (aims : tree.Aims path place) (seen : ¬ tree.Misses path place) :
    ∃ error, loadOrEmpty tree path = .error error ∧ error.path = path := by
  unfold loadOrEmpty load? readText FileTree.read
  cases found : tree.find path with
  | error error =>
    cases error with
    | notFound => exact absurd ⟨aims, ⟨content, stamp, file⟩, found⟩ seen
    | _ => exact ⟨_, rfl, rfl⟩
  | ok pair =>
    obtain ⟨other, entry⟩ := pair
    have leads := find_eq_ok.mp found
    obtain rfl := (aims_of_resolve leads).unique aims
    cases (leads_of_resolve leads).get?.1.symm.trans file
    cases content with
    | binary bytes => exact ⟨_, rfl, rfl⟩
    | text words =>
      cases parsed : parse words with
      | ok catalog => exact absurd parsed (bad catalog)
      | error error =>
        simp only [parsed]
        exact ⟨_, rfl, rfl⟩

/-- **Saving spares an unreadable file** that the path does not miss. -/
theorem spares_rewrite (rooted : tree.Rooted) (file : tree.get? place = some (.file content stamp))
    (bad : content.Unreadable) (seen : ¬ tree.Misses path place) :
    Spares place tree (rewrite tree path text report).2 (· = path)
      (errorsOf (rewrite tree path text report).1) := by
  by_cases aims : tree.Aims path place
  · obtain ⟨error, failed, own⟩ := load_of_unreadable file bad aims seen
    rw [rewrite_of_error failed]
    exact ⟨Grows.refl _ tree, fun other same _ => ⟨error, List.mem_singleton_self error, same ▸ own⟩⟩
  · -- The text is stored elsewhere, if at all.
    refine ⟨?_, fun other same there => absurd (same ▸ there) aims⟩
    cases done : rewrite tree path text report with
    | mk outcome left =>
      cases outcome with
      | error error => exact rewrite_eq_error done _
      | ok result =>
        obtain ⟨catalog, changed, -, saved, -⟩ := rewrite_eq_ok done
        obtain ⟨goal, own, reaches, grows, -⟩ := saveText_eq_ok rooted saved
        refine grows.mono fun spot here => ?_
        rintro rfl
        exact aims (here ▸ reaches)

/-- **An unreadable file that is overwritten was missed.** -/
theorem overwritten_of_rewrite (rooted : tree.Rooted)
    (file : tree.get? place = some (.file content stamp)) (bad : content.Unreadable)
    (aims : tree.Aims path place) {result : α} (done : rewrite tree path text report = (.ok result, left)) :
    tree.Misses path place ∧ ∃ written later, left.get? place = some (.file (.text written) later) := by
  obtain ⟨catalog, changed, loaded, saved, -⟩ := rewrite_eq_ok done
  refine ⟨Classical.byContradiction fun seen => ?_, ?_⟩
  · obtain ⟨error, failed, -⟩ := load_of_unreadable file bad aims seen
    cases failed.symm.trans loaded
  · obtain ⟨goal, own, reaches, -, found, -⟩ := saveText_eq_ok rooted saved
    obtain rfl := reaches.unique aims
    exact ⟨_, _, (leads_of_resolve found).get?.1⟩

end Catalog

/-! ### Merging languages -/

namespace Locale

variable {locale : Locale} {template : Items} {configured cultures : List String} {culture : String}

/-- The report of a turn has the errors of the turn and those of the others. -/
theorem errors_add (report : MergeReport) (culture : String) (outcome : Except StoreError LanguageSummary) :
    (report.add culture outcome).failures.map (·.2) = errorsOf outcome ++ report.failures.map (·.2) := by
  cases outcome <;> rfl

theorem spares_mergeLanguage (rooted : tree.Rooted)
    (file : tree.get? place = some (.file content stamp)) (bad : content.Unreadable)
    (seen : ¬ tree.Misses (locale.languagePath culture) place) (template : Items) :
    Spares place tree (locale.mergeLanguage template tree culture).2 (· = locale.languagePath culture)
      (errorsOf (locale.mergeLanguage template tree culture).1) := by
  rw [mergeLanguage_eq]
  exact Catalog.spares_rewrite rooted file bad seen

/-- **Turns spare an unreadable file** that the paths of the cultures do not miss. -/
theorem spares_mergeEach (rooted : tree.Rooted) (file : tree.get? place = some (.file content stamp))
    (bad : content.Unreadable)
    (seen : ∀ culture ∈ cultures, ¬ tree.Misses (locale.languagePath culture) place) (template : Items) :
    let result := locale.mergeEach template tree cultures
    Spares place tree result.2 (fun path => ∃ culture ∈ cultures, path = locale.languagePath culture)
      (result.1.failures.map (·.2)) := by
  induction cultures generalizing tree with
  | nil => exact Spares.idle place tree _ (by simp)
  | cons culture rest ih =>
    have own := spares_mergeLanguage rooted file bad (seen culture List.mem_cons_self) template
    have others := ih (own.grows.rooted rooted) (own.file file) fun other member =>
      own.grows.not_misses rooted file (seen other (List.mem_cons_of_mem culture member))
    rw [mergeEach_cons]
    dsimp only
    rw [errors_add]
    refine (own.trans others).mono fun path written => ?_
    simpa using written

/-- A merge takes a turn that is to write on the path. -/
def MergesOn (locale : Locale) (configured : List String) (tree : FileTree) (path : Path) : Prop :=
  ∃ cultures, locale.cultures tree configured = .ok cultures ∧
    ∃ culture ∈ cultures, path = locale.languagePath culture

/-- **A merge spares an unreadable file** that the paths of the configured cultures do not miss. -/
theorem spares_mergeAll (rooted : tree.Rooted) (file : tree.get? place = some (.file content stamp))
    (bad : content.Unreadable)
    (seen : ∀ culture ∈ configured, ¬ tree.Misses (locale.languagePath culture) place)
    (template : Items) :
    let result := locale.mergeAll configured template tree
    Spares place tree result.2 (locale.MergesOn configured tree) (result.1.failures.map (·.2)) := by
  cases listed : locale.cultures tree configured with
  | error error =>
    rw [mergeAll, listed]
    refine Spares.idle place tree _ ?_
    rintro path ⟨cultures, known, -⟩
    cases listed.symm.trans known
  | ok cultures =>
    rw [mergeAll_of_cultures listed]
    obtain ⟨names, languages, -, members⟩ := mem_cultures listed
    -- A culture that is listed has its catalog found, so only the configured ones can miss a file.
    have visible : ∀ culture ∈ cultures, ¬ tree.Misses (locale.languagePath culture) place := by
      intro culture member
      rcases (members culture).mp member with onDisk | wanted
      · obtain ⟨-, has⟩ := (mem_languages languages).mp onDisk
        obtain ⟨_, _, _, found⟩ := isFile_iff.mp has
        exact not_misses_of_resolve found place
      · exact seen culture wanted
    refine (spares_mergeEach rooted file bad visible template).mono ?_
    rintro path ⟨others, known, culture, member, same⟩
    cases listed.symm.trans known
    exact ⟨culture, member, same⟩

end Locale

/-! ### Builds -/

namespace Project

variable {project : Project} {options : BuildOptions} {items : Items}

/-- The errors of files that a build returns, or records for the languages. -/
def storeErrors : Except BuildError BuildReport → List StoreError
  | .error (.scan _) => []
  | .error (.store error) => [error]
  | .ok report => report.merge.elim [] fun merge => merge.failures.map (·.2)

/-- A build comes to write on the path: that of the template, or that of a language to merge. -/
def BuildsOn (project : Project) (options : BuildOptions) (tree : FileTree) (path : Path) : Prop :=
  ∃ scanner, SourceScanner.ofProject project options.showContext = .ok scanner ∧
    (path = project.locale.templatePath ∨
      ∃ changed left,
        project.locale.saveTemplate tree (scanner.scan tree).items = (.ok changed, left) ∧
        (options.merge && (changed || project.lacksLanguage left)) = true ∧
        project.locale.MergesOn project.settings.languages left path)

theorem spares_saveTemplate {locale : Locale} (rooted : tree.Rooted)
    (file : tree.get? place = some (.file content stamp)) (bad : content.Unreadable)
    (seen : ¬ tree.Misses locale.templatePath place) (items : Items) :
    Spares place tree (locale.saveTemplate tree items).2 (· = locale.templatePath)
      (errorsOf (locale.saveTemplate tree items).1) := by
  unfold Locale.saveTemplate
  rw [Catalog.save_eq_rewrite]
  exact Catalog.spares_rewrite rooted file bad seen

theorem spares_mergeScanned (rooted : tree.Rooted)
    (file : tree.get? place = some (.file content stamp)) (bad : content.Unreadable)
    (seen : ∀ culture ∈ project.settings.languages,
      ¬ tree.Misses (project.locale.languagePath culture) place)
    (options : BuildOptions) (items : Items) (changed : Bool) :
    let result := project.mergeScanned options items changed tree
    Spares place tree result.2
      (fun path => (options.merge && (changed || project.lacksLanguage tree)) = true ∧
        project.locale.MergesOn project.settings.languages tree path)
      (result.1.elim [] fun merge => merge.failures.map (·.2)) := by
  unfold mergeScanned
  split
  · exact (Locale.spares_mergeAll rooted file bad seen items).mono fun path written => written.2
  · rename_i idle
    exact Spares.idle place tree _ fun path written => idle written.1

/-- **A build spares an unreadable file** that the paths of the template and of the configured
languages do not miss. -/
theorem spares_build (rooted : tree.Rooted) (file : tree.get? place = some (.file content stamp))
    (bad : content.Unreadable) (template : ¬ tree.Misses project.locale.templatePath place)
    (languages : ∀ culture ∈ project.settings.languages,
      ¬ tree.Misses (project.locale.languagePath culture) place) (options : BuildOptions) :
    let result := project.build options tree
    Spares place tree result.2 (project.BuildsOn options tree) (storeErrors result.1) := by
  unfold build
  cases made : SourceScanner.ofProject project options.showContext with
  | error error =>
    refine Spares.idle place tree _ ?_
    rintro path ⟨scanner, known, -⟩
    cases made.symm.trans known
  | ok scanner =>
    dsimp only
    have first := spares_saveTemplate rooted file bad template (scanner.scan tree).items
    unfold buildScanned
    cases saved : project.locale.saveTemplate tree (scanner.scan tree).items with
    | mk outcome left =>
      rw [saved] at first
      cases outcome with
      | error error =>
        refine first.mono ?_
        rintro path ⟨other, known, written⟩
        cases made.symm.trans known
        rcases written with own | ⟨changed, after, done, -⟩
        · exact own
        · cases saved.symm.trans done
      | ok changed =>
        have visible : ∀ culture ∈ project.settings.languages,
            ¬ left.Misses (project.locale.languagePath culture) place := fun culture member =>
          first.grows.not_misses rooted file (languages culture member)
        have others := spares_mergeScanned (first.grows.rooted rooted) (first.file file) bad visible
          options (scanner.scan tree).items changed
        refine (first.trans others).mono ?_
        rintro path ⟨other, known, written⟩
        cases made.symm.trans known
        rcases written with own | ⟨same, after, done, due, merges⟩
        · exact .inl own
        · cases saved.symm.trans done
          exact .inr ⟨due, merges⟩

/-- A build that returns an error changes no file. -/
theorem grows_of_build_error {error : BuildError}
    (failed : project.build options tree = (.error error, left)) : Grows (fun _ => False) tree left := by
  rcases build_eq_error failed with rfl | ⟨items, failure, saved⟩
  · exact Grows.refl _ left
  · unfold Locale.saveTemplate at saved
    rw [Catalog.save_eq_rewrite] at saved
    exact Catalog.rewrite_eq_error saved _

end Project

/-! ### Sequences of calls -/

/-- A call that saves catalogs. -/
inductive StoreCall where
  | saveTemplate (locale : Locale) (items : Items)
  | saveLanguage (locale : Locale) (culture : String) (items : Items)
  | mergeAll (locale : Locale) (configured : List String) (template : Items)
  | build (project : Project) (options : BuildOptions)

namespace StoreCall

/-- The errors that a call returns or records, and what it leaves. -/
def run : StoreCall → FileTree → List StoreError × FileTree
  | .saveTemplate locale items, tree =>
    let (outcome, left) := locale.saveTemplate tree items
    (errorsOf outcome, left)
  | .saveLanguage locale culture items, tree =>
    let (outcome, left) := locale.saveLanguage tree culture items
    (errorsOf outcome, left)
  | .mergeAll locale configured template, tree =>
    let (report, left) := locale.mergeAll configured template tree
    (report.failures.map (·.2), left)
  | .build project options, tree =>
    let (outcome, left) := project.build options tree
    (Project.storeErrors outcome, left)

/-- The paths that a call names. -/
def paths : StoreCall → List Path
  | .saveTemplate locale _ => [locale.templatePath]
  | .saveLanguage locale culture _ => [locale.languagePath culture]
  | .mergeAll locale configured _ => configured.map locale.languagePath
  | .build project _ =>
    project.locale.templatePath :: project.settings.languages.map project.locale.languagePath

/-- A call comes to write on a path. -/
def WritesOn : StoreCall → FileTree → Path → Prop
  | .saveTemplate locale _, _, path => path = locale.templatePath
  | .saveLanguage locale culture _, _, path => path = locale.languagePath culture
  | .mergeAll locale configured _, tree, path => locale.MergesOn configured tree path
  | .build project options, tree, path => project.BuildsOn options tree path

/-- Runs calls, one after the other. -/
def runAll (calls : List StoreCall) (tree : FileTree) : FileTree :=
  calls.foldl (fun tree call => (call.run tree).2) tree

variable {call : StoreCall} {calls : List StoreCall}

/-- **A call spares an unreadable file** that its paths do not miss. -/
theorem spares_run (rooted : tree.Rooted) (file : tree.get? place = some (.file content stamp))
    (bad : content.Unreadable) (seen : ∀ path ∈ call.paths, ¬ tree.Misses path place) :
    Spares place tree (call.run tree).2 (call.WritesOn tree) (call.run tree).1 := by
  cases call with
  | saveTemplate locale items =>
    exact Project.spares_saveTemplate rooted file bad (seen _ (List.mem_singleton_self _)) items
  | saveLanguage locale culture items =>
    dsimp only [run]
    unfold Locale.saveLanguage
    rw [Catalog.save_eq_rewrite]
    exact Catalog.spares_rewrite rooted file bad (seen _ (List.mem_singleton_self _))
  | mergeAll locale configured template =>
    exact Locale.spares_mergeAll rooted file bad
      (fun culture member => seen _ (List.mem_map_of_mem member)) template
  | build project options =>
    exact Project.spares_build rooted file bad (seen _ List.mem_cons_self)
      (fun culture member => seen _ (List.mem_cons_of_mem _ (List.mem_map_of_mem member))) options

/-- All calls leave the file as it is. -/
theorem grows_runAll (rooted : tree.Rooted) (file : tree.get? place = some (.file content stamp))
    (bad : content.Unreadable) (seen : ∀ call ∈ calls, ∀ path ∈ call.paths, ¬ tree.Misses path place) :
    Grows (· ≠ place) tree (runAll calls tree) := by
  induction calls generalizing tree with
  | nil => exact Grows.refl _ tree
  | cons call rest ih =>
    have first := spares_run rooted file bad (seen call List.mem_cons_self)
    refine first.grows.trans (ih (first.grows.rooted rooted) (first.file file) ?_)
    exact fun other member path named => first.grows.not_misses rooted file
      (seen other (List.mem_cons_of_mem call member) path named)

/-- **A file that cannot be read is not overwritten** by any sequence of saves, merges and builds whose
paths do not miss it: it stays as it is, and every call that comes to write on a path that aims at it
has an error for this path. A build that returns an error changes no file at all. -/
theorem spares_runAll (rooted : tree.Rooted) (file : tree.get? place = some (.file content stamp))
    (bad : content.Unreadable) (seen : ∀ call ∈ calls, ∀ path ∈ call.paths, ¬ tree.Misses path place) :
    (runAll calls tree).get? place = some (.file content stamp) ∧
      (∀ before call after, calls = before ++ call :: after →
        let now := runAll before tree
        ∀ path, call.WritesOn now path → tree.Aims path place →
          ∃ error ∈ (call.run now).1, error.path = path) ∧
      ∀ project options now error left, Project.build project options now = (.error error, left) →
        Grows (fun _ => False) now left := by
  refine ⟨((grows_runAll rooted file bad seen).elsewhere (not_not_intro rfl)).mpr file, ?_, ?_⟩
  · rintro before call after rfl now path written aims
    have grows := grows_runAll rooted file bad fun other member =>
      seen other (List.mem_append_left _ member)
    have still := (grows.elsewhere (not_not_intro rfl)).mpr file
    have visible : ∀ path ∈ call.paths, ¬ now.Misses path place := fun path named =>
      grows.not_misses rooted file
        (seen call (List.mem_append_right before List.mem_cons_self) path named)
    exact (spares_run (grows.rooted rooted) still bad visible).refuses path written (grows.aims.mpr aims)
  · exact fun project options now error left failed => Project.grows_of_build_error failed

/-- A locale directory with a template that is no catalog. -/
def brokenTemplate : FileTree :=
  ⟨.ofList [(["locale"], .directory), (["locale", Locale.templateName], .file (.text "broken") 0)], [], 1⟩

theorem unreadable_broken : (Content.text "broken").Unreadable := by
  intro catalog parsed
  have refused : (Catalog.parse "broken").isOk = false := by decide +kernel
  rw [parsed] at refused
  cases refused

/-- Neither a build nor the saving of a template overwrites the template, and the latter tells so. -/
theorem spares_runAll_brokenTemplate :
    let calls : List StoreCall := [.build Project.sample .standard, .saveTemplate Locale.sample .empty]
    (runAll calls brokenTemplate).get? ["locale", Locale.templateName] =
        some (.file (.text "broken") 0) ∧
      ∃ error ∈ (run (.saveTemplate Locale.sample .empty)
        (runAll [.build Project.sample .standard] brokenTemplate)).1,
        error.path = Locale.sample.templatePath := by
  have rooted : brokenTemplate.Rooted := by decide +kernel
  have file : brokenTemplate.get? ["locale", Locale.templateName] = some (.file (.text "broken") 0) := by
    decide +kernel
  have found : brokenTemplate.resolve Locale.sample.templatePath =
      .ok (.present ["locale", Locale.templateName] (.file (.text "broken") 0)) := by decide +kernel
  have seen : ∀ call ∈ [StoreCall.build Project.sample .standard, .saveTemplate Locale.sample .empty],
      ∀ path ∈ call.paths, ¬ brokenTemplate.Misses path ["locale", Locale.templateName] := by
    have paths : ∀ call ∈ [StoreCall.build Project.sample .standard, .saveTemplate Locale.sample .empty],
        call.paths = [Locale.sample.templatePath] := by
      simp only [List.mem_cons, List.not_mem_nil, or_false, forall_eq_or_imp, forall_eq]
      decide +kernel
    intro call member path named
    rw [paths call member, List.mem_singleton] at named
    exact named ▸ not_misses_of_resolve found _
  obtain ⟨kept, refused, -⟩ := spares_runAll rooted file unreadable_broken seen
  exact ⟨kept, refused [.build Project.sample .standard] (.saveTemplate Locale.sample .empty) [] rfl
    _ rfl (aims_of_resolve found)⟩

/-- A project with a locale directory behind a directory that is missing. -/
def detour : Project :=
  { Project.sample with settings := { Project.sample.settings with localeDirectory := "gone/../locale" } }

/-- **A template that is missed is overwritten**, though it cannot be read, and no error tells so. -/
theorem build_overwrites_detour :
    let result := (StoreCall.build detour .standard).run brokenTemplate
    detour.settings.problems = [] ∧ brokenTemplate.Rooted ∧
      brokenTemplate.get? ["locale", Locale.templateName] = some (.file (.text "broken") 0) ∧
      (Content.text "broken").Unreadable ∧ result.1 = [] ∧
      result.2.get? ["locale", Locale.templateName] ≠ some (.file (.text "broken") 0) := by
  refine ⟨?_, ?_, ?_, unreadable_broken, ?_, ?_⟩ <;> decide +kernel

end StoreCall

end Sparing

end Localization

import Localization.Proofs.Build.Rebuilding

/-
**Builds that leave the languages in step with the sources.**

A build that is to merge does so if it changes the template, or if some language has no catalog yet. It
then brings all languages in step with the sources. One that does not merge leaves everything as it is,
so that a language is in step with the sources exactly if it was in step with the template.

* `Locale.InStep` — the catalog of a culture is in step with a template.
* `Locale.Hidden` — a catalog that is there but cannot be seen.
* `Built.inStep_of_merge` — what a build does that merges.
* `Tended` — the template and a catalog have not parted since the culture was merged; `Tended.current`.
* `inStep_build` — when the languages are in step with the sources after a build.
-/

namespace Localization

open FileTree

namespace Locale

variable {locale : Locale} {tree after : FileTree} {culture other : String} {place : Place}
  {template : Items}

/-! ### Languages in step -/

/-- The catalog of a culture can be loaded, and is in step with a template. -/
def InStep (locale : Locale) (tree : FileTree) (culture : String) (template : Items) : Prop :=
  ∃ items, locale.loadLanguage tree culture = .ok items ∧ items.InStep template

/-- The catalog of a culture is in step with the template that is there. -/
def InStepOnDisk (locale : Locale) (tree : FileTree) (culture : String) : Prop :=
  ∃ template, locale.loadTemplate tree = .ok template ∧ locale.InStep tree culture template

/-- A culture is not listed, although a file stands where its path aims. -/
def Hidden (locale : Locale) (tree : FileTree) (culture : String) : Prop :=
  (∀ names, locale.languages tree = .ok names → culture ∉ names) ∧
    ∃ place content stamp, tree.Aims (locale.languagePath culture) place ∧
      tree.get? place = some (.file content stamp)

theorem loadLanguage_of_found {text : String} {stamp : Nat} {catalog : Catalog}
    (found : tree.resolve (locale.languagePath culture) = .ok (.present place (.file (.text text) stamp)))
    (parsed : Catalog.parse text = .ok catalog) :
    locale.loadLanguage tree culture = .ok catalog.items :=
  loadLanguage_eq_ok.mpr ⟨catalog, Catalog.loadOrEmpty_eq_ok.mpr
    (.inr ⟨text, readText_of_resolve found, parsed⟩), rfl⟩

/-- A culture whose file was merged, if only for another culture, is in step. -/
theorem inStep_of_holds (clean : template.Clean) {content : Content} {stamp : Nat}
    (found : tree.resolve (locale.languagePath culture) = .ok (.present place (.file content stamp)))
    (holds : Holds Catalog.Tidy template other tree place) : locale.InStep tree culture template := by
  obtain ⟨catalog, own, tidy, there⟩ := holds
  cases (leads_of_resolve found).get?.1.symm.trans there
  have parsed := parse_mergedText clean.writable tidy other
  exact ⟨_, loadLanguage_of_found found parsed, Items.inStep_rereadItems_merge clean catalog.items⟩

end Locale

namespace Project

variable {project : Project} {options : BuildOptions} {tree left after : FileTree}
  {report : BuildReport} {scanner : SourceScanner} {items : Items} {header : Header} {place : Place}
  {culture : String}

/-! ### Builds that merge -/

/-- **After a build that merged without failures, every culture that can be seen is in step**, unless
its catalog was there before the build and could not be seen. -/
theorem Built.inStep_of_merge (built : Built project options items tree left after report header place)
    (clean : items.Clean) (good : tree.Sound) {merge : MergeReport} (done : report.merge = some merge)
    (success : merge.isSuccess = true) {names : List String}
    (listed : project.locale.languages after = .ok names) (member : culture ∈ names)
    (seen : ¬ project.locale.Hidden tree culture ∨ culture ∈ project.settings.languages) :
    project.locale.InStep after culture items := by
  have merged := built.merged
  rw [done] at merged
  obtain ⟨cultures, known, turns, all⟩ := Locale.turns_of_success (mergeScanned_eq_some merged) success
  obtain ⟨before, same, -, members⟩ := Locale.mem_cultures known
  obtain ⟨-, grows, held⟩ := Locale.mergeEach_sound project.locale clean.writable
    (built.sound clean good) cultures
  rw [turns] at grows held
  obtain ⟨goal, content, stamp, found⟩ := isFile_iff.mp ((Locale.mem_languages listed).mp member).2
  have aims := grows.aims.mp (aims_of_resolve found)
  by_cases touched : project.locale.Touched left merge goal
  · obtain ⟨last, -, -, holds⟩ := held goal touched
    exact Locale.inStep_of_holds clean found holds
  · -- The file of the culture was not merged, so it is the template, or it was there before.
    have unmerged : culture ∉ cultures := by
      intro inside
      obtain ⟨summary, reported, rfl⟩ := all culture inside
      exact touched ⟨summary, reported, aims⟩
    have there := (grows.elsewhere touched).mp (leads_of_resolve found).get?.1
    by_cases here : goal = place
    · subst here
      obtain ⟨written, template⟩ := built.found
      cases there.symm.trans (leads_of_resolve template).get?.1
      have parsed := parse_templateText clean built.tidy
      exact ⟨_, Locale.loadLanguage_of_found found parsed, clean.inStep⟩
    · rcases seen with unhidden | wanted
      · refine absurd ⟨fun names listed inside => unmerged ((members culture).mpr (.inl ?_)),
          goal, content, stamp, built.grows.aims.mp aims, (built.grows.elsewhere here).mp there⟩ unhidden
        exact Locale.mem_languages_of_grows built.grows listed same inside
      · exact absurd ((members culture).mpr (.inr wanted)) unmerged

/-! ### Templates on disk -/

/-- The template of a clean scan is loaded with the places of the scan. -/
theorem loadTemplate_of_clean (clean : items.Clean) (tidy : Catalog.TidyHeader header)
    (held : tree.readText project.locale.templatePath = .ok (templateText header items)) :
    ∃ template, project.locale.loadTemplate tree = .ok template ∧
      ∀ id, template.places id = items.places id := by
  have parsed := parse_templateText clean tidy
  refine ⟨(Catalog.rereadItems items).mapValues fun _ item => item.asTemplate, ?_, fun id => ?_⟩
  · unfold Locale.loadTemplate Catalog.load?
    rw [held]
    dsimp only
    rw [parsed]
    rfl
  · unfold Items.places
    rw [SortedMap.get?_mapValues, SortedMap.get?_mapValues]
    cases placed : items.get? id with
    | none => rfl
    | some item => exact congrArg some (clean.references placed)

/-- A build that comes to its end, from a tree with clean sources. -/
structure CleanBuild (project : Project) (options : BuildOptions) (scanner : SourceScanner)
    (tree after : FileTree) (report : BuildReport) : Prop where
  made : SourceScanner.ofProject project options.showContext = .ok scanner
  rooted : tree.Rooted
  fits : tree.Fits
  sources : scanner.CleanSources tree
  built : project.build options tree = (.ok report, after)

/-- Since a culture was merged, its life and the text of the template have stayed the same. -/
inductive Tended (project : Project) (culture : String) : FileTree → Prop
  | merged {options : BuildOptions} {scanner : SourceScanner} {tree after : FileTree}
      {report : BuildReport} {merge : MergeReport}
      (build : project.CleanBuild options scanner tree after report)
      (done : report.merge = some merge)
      (reported : ∃ summary ∈ merge.languages, summary.culture = culture) : Tended project culture after
  | kept {tree after : FileTree} (tended : Tended project culture tree)
      (template : after.readText project.locale.templatePath =
        tree.readText project.locale.templatePath)
      (life : ∀ items, project.locale.loadLanguage tree culture = .ok items →
        ∃ later, project.locale.loadLanguage after culture = .ok later ∧ later.SameLife items) :
      Tended project culture after

/-- A culture is in step with every clean scan whose template is there. -/
def Current (project : Project) (tree : FileTree) (culture : String) : Prop :=
  ∃ items, project.locale.loadLanguage tree culture = .ok items ∧
    ∀ header template, Catalog.TidyHeader header → template.Clean →
      tree.readText project.locale.templatePath = .ok (templateText header template) →
      items.InStep template

/-- **A build that merges a culture makes it current.** -/
theorem CleanBuild.current (build : project.CleanBuild options scanner tree after report)
    {merge : MergeReport} (done : report.merge = some merge)
    (reported : ∃ summary ∈ merge.languages, summary.culture = culture) :
    project.Current after culture := by
  obtain ⟨left, header, place, built⟩ := built_of_build build.made build.rooted build.built
  have clean := build.sources.clean
  have merged := built.merged
  rw [done] at merged
  obtain ⟨summary, member, rfl⟩ := reported
  obtain ⟨cultures, -, turns⟩ := Locale.turns_of_mergeAll (mergeScanned_eq_some merged) member
  have sound := built.sound clean ⟨build.rooted, build.fits.tidyTexts⟩
  obtain ⟨-, grows, held⟩ := Locale.mergeEach_sound project.locale clean.writable sound cultures
  rw [show merge = (project.locale.mergeEach (scanner.scan tree).items left cultures).1 by rw [turns]]
    at member
  obtain ⟨goal, content, stamp, aims, found⟩ := Locale.resolve_of_reported sound.rooted member
  rw [turns] at grows held found member
  obtain ⟨last, -, -, holds⟩ := held goal ⟨summary, member, aims⟩
  obtain ⟨items, loaded, step⟩ := Locale.inStep_of_holds clean found holds
  refine ⟨items, loaded, fun second template tidy cleanTemplate text => ?_⟩
  obtain ⟨stamp, there⟩ := built.found
  by_cases touched : project.locale.Touched left merge place
  · -- A language stands in the place of the template, and its text is that of no template.
    obtain ⟨other, -, -, catalog, later, known, stands⟩ := held place touched
    rw [readText_of_resolve (grows.resolve there stands)] at text
    exact absurd (Except.ok.inj text) (Catalog.render_ne_of_language known.header tidy)
  · have stands := (grows.elsewhere touched).mpr (leads_of_resolve there).get?.1
    rw [readText_of_resolve (grows.resolve there stands), templateText_eq clean,
      templateText_eq cleanTemplate] at text
    exact (Items.InStep.congr (Items.places_of_render_eq clean cleanTemplate
      (built.tidy.newline_standard none) (tidy.newline_standard none) (Except.ok.inj text))).mp step

/-- **What has been tended is current.** -/
theorem Tended.current (tended : project.Tended culture tree) : project.Current tree culture := by
  induction tended with
  | merged build done reported => exact build.current done reported
  | kept _ template life ih =>
    obtain ⟨items, loaded, current⟩ := ih
    obtain ⟨later, again, same⟩ := life items loaded
    refine ⟨later, again, fun header scan tidy clean text => ?_⟩
    exact (current header scan tidy clean (template ▸ text)).of_sameLife same

/-! ### The languages after a build -/

/-- **After a build that merges, the languages that can be seen are in step with the sources.** A build
that is to merge does so exactly if it changes the template or if some language had no catalog before it.
If it does not, nothing has changed, and a language is in step with the sources exactly if it was in step
with the template. So are those that were merged before and have not parted from the template since. -/
theorem inStep_build (build : project.CleanBuild options scanner tree after report)
    (merging : options.merge = true) (success : report.isSuccess = true) :
    (report.merge.isSome = true ↔
      report.templateChanged = true ∨ project.lacksLanguage tree = true) ∧
    (∀ merge, report.merge = some merge → ∀ names, project.locale.languages after = .ok names →
      ∀ culture ∈ names,
        (¬ project.locale.Hidden tree culture ∨ culture ∈ project.settings.languages) →
        project.locale.InStep after culture (scanner.scan tree).items) ∧
    (report.merge = none → after = tree ∧ ∀ culture,
      (project.locale.InStep after culture (scanner.scan tree).items ↔
        project.locale.InStepOnDisk tree culture) ∧
      (project.Tended culture tree →
        project.locale.InStep after culture (scanner.scan tree).items)) := by
  obtain ⟨left, header, place, built⟩ := built_of_build build.made build.rooted build.built
  have clean := build.sources.clean
  refine ⟨built.merges_iff merging, fun merge done names listed culture member seen => ?_, fun none => ?_⟩
  · rw [BuildReport.isSuccess, done] at success
    exact built.inStep_of_merge clean ⟨build.rooted, build.fits.tidyTexts⟩ done success listed member seen
  · have merged := built.merged
    rw [none] at merged
    obtain ⟨unchanged, -, rfl⟩ := mergeScanned_eq_none merging merged
    obtain rfl := built.kept unchanged
    have text := built.changed.mp unchanged
    obtain ⟨template, loaded, same⟩ := loadTemplate_of_clean clean built.tidy text
    refine ⟨rfl, fun culture => ⟨⟨?_, ?_⟩, fun tended => ?_⟩⟩
    · rintro ⟨items, known, step⟩
      exact ⟨template, loaded, items, known, (Items.InStep.congr same).mpr step⟩
    · rintro ⟨other, read, items, known, step⟩
      cases loaded.symm.trans read
      exact ⟨items, known, (Items.InStep.congr same).mp step⟩
    · obtain ⟨items, known, current⟩ := tended.current
      exact ⟨items, known, current header _ built.tidy clean text⟩

/-- A build that merges a language brings it in step. -/
theorem inStep_build_emptyCatalog :
    ∃ scanner report after,
      sample.CleanBuild .standard scanner (catalogTree (.file (.text "") 0)) after report ∧
      report.isSuccess = true ∧ report.merge.isSome = true ∧
      sample.locale.languages after = .ok ["fr"] ∧
      sample.locale.InStep after "fr" (scanner.scan (catalogTree (.file (.text "") 0))).items := by
  obtain ⟨scanner, report, after, build⟩ := mergedSample_emptyCatalog
  have clean : sample.CleanBuild .standard scanner (catalogTree (.file (.text "") 0)) after report :=
    ⟨build.made, build.rooted, build.fits, build.sources, build.built⟩
  have listed : sample.locale.languages (catalogTree (.file (.text "") 0)) = .ok ["fr"] := by
    decide +kernel
  have seen : ¬ sample.locale.Hidden (catalogTree (.file (.text "") 0)) "fr" := fun hidden =>
    hidden.1 ["fr"] listed (List.mem_singleton_self _)
  obtain ⟨summary, -, merged⟩ := build.merged
  refine ⟨scanner, report, after, clean, build.success, by rw [merged]; rfl, build.listed, ?_⟩
  exact (inStep_build clean rfl build.success).2.1 _ merged ["fr"] build.listed "fr"
    (List.mem_singleton_self _) (.inl seen)

/-- A language that a build without a merge left behind is not brought in step by the next one. -/
theorem build_leaves_emptyCatalog :
    ∃ scanner first after second,
      SourceScanner.ofProject sample BuildOptions.standard.showContext = .ok scanner ∧
      sample.build ⟨false, false⟩ (catalogTree (.file (.text "") 0)) = (.ok first, after) ∧
      sample.build .standard after = (.ok second, after) ∧ second.isSuccess = true ∧
      sample.locale.languages after = .ok ["fr"] ∧
      ¬ sample.locale.InStep after "fr" (scanner.scan after).items := by
  have checked : (SourceScanner.ofProject sample BuildOptions.standard.showContext).toOption.any
      (fun scanner =>
        let tree := catalogTree (.file (.text "") 0)
        let result := sample.build ⟨false, false⟩ tree
        decide (scanner.CleanSources tree) &&
          result.1.toOption.any (fun report : BuildReport => decide (report.merge = none)) &&
          decide (sample.locale.languages result.2 = .ok ["fr"]) &&
          decide (sample.locale.loadLanguage result.2 "fr" = .ok .empty) &&
          decide ((scanner.scan result.2).items = (scanner.scan tree).items) &&
          ((scanner.scan tree).items.places "Hello").isSome) = true := by decide +kernel
  obtain ⟨scanner, made, facts⟩ := exists_of_any_toOption _ _ checked
  simp only [Bool.and_eq_true, decide_eq_true_eq] at facts
  obtain ⟨⟨⟨⟨⟨sources, done⟩, listed⟩, loaded⟩, same⟩, mentioned⟩ := facts
  obtain ⟨first, accepted, unmerged⟩ := exists_of_any_toOption _ _ done
  have rooted : (catalogTree (.file (.text "") 0)).Rooted := by decide +kernel
  have built : sample.build ⟨false, false⟩ (catalogTree (.file (.text "") 0)) =
      (.ok first, (sample.build ⟨false, false⟩ (catalogTree (.file (.text "") 0))).2) := by
    rw [← accepted]
  have plain : SourceScanner.ofProject sample (⟨false, false⟩ : BuildOptions).showContext = .ok scanner :=
    made
  obtain ⟨left, header, place, start⟩ := built_of_build plain rooted built
  have unmoved : (none, left) = (first.merge, _) := start.merged
  obtain ⟨-, rfl⟩ := Prod.mk.inj unmoved
  obtain ⟨stamp, found⟩ := start.found
  obtain ⟨second, last, rebuilt⟩ := exists_build made found (parse_templateText sources.clean start.tidy)
  obtain ⟨next, now, goal, again⟩ := built_of_build made (start.grows.rooted rooted) rebuilt
  rw [same] at again
  have held := readText_of_resolve found
  obtain ⟨-, idle, rfl⟩ := again.idle (start.text_eq held again ▸ held) rfl
  refine ⟨scanner, first, _, second, made, built, rebuilt, by rw [BuildReport.isSuccess, idle]; rfl,
    listed, ?_⟩
  rintro ⟨items, known, step⟩
  cases loaded.symm.trans known
  rw [same] at step
  have there := step "Hello"
  rw [Items.lives_merge] at there
  obtain ⟨places, known⟩ := Option.isSome_iff_exists.mp mentioned
  rw [known] at there
  cases there

end Project

end Localization

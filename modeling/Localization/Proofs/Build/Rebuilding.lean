import Localization.Proofs.Build
import Localization.Proofs.Catalog.InStep
import Localization.Proofs.Languages

/-
**A build that is repeated.**

A second build of the same sources finds the template and the catalogs that the first one left. It
changes nothing, unless a catalog that was merged stands in the place of the template.

* `Built` — what a build did that came to its end; `built_of_build`.
* `mergeScanned_eq_none`, `mergeScanned_eq_some` — whether it merged the languages; `Built.merges_iff`.
* `build_repeated_iff` — when the second build changes nothing.
-/

namespace Localization

open FileTree

theorem Catalog.tidyHeader_of_loadHeader {tree : FileTree} {path : Path} {header : Header}
    (loaded : Catalog.loadHeader tree path = .ok header) : Catalog.TidyHeader header := by
  rw [loadHeader_eq] at loaded
  cases found : loadOrEmpty tree path with
  | error error =>
    rw [found] at loaded
    cases loaded
  | ok catalog =>
    rw [found] at loaded
    cases loaded
    rcases loadOrEmpty_eq_ok.mp found with ⟨-, rfl⟩ | ⟨text, -, parsed⟩
    · exact tidyHeader_empty
    · exact tidyHeader_of_parse parsed

/-- What is loaded of a file that holds a header above whatever items. -/
theorem Catalog.loadHeader_render {tree : FileTree} {path : Path} {header loaded : Header} {items : Items}
    (comments : ∀ comment ∈ header.comments, '\n' ∉ comment.toList)
    (held : tree.readText path = .ok (render ⟨header, items⟩))
    (read : loadHeader tree path = .ok loaded) : loaded = rereadHeader header := by
  unfold loadHeader load? at read
  rw [held] at read
  dsimp only at read
  cases parsed : parse (render ⟨header, items⟩) with
  | error error =>
    rw [parsed] at read
    cases read
  | ok catalog =>
    rw [parsed] at read
    cases read
    exact header_of_parse_render comments parsed

namespace SourceScanner

/-- The sources have names that references can hold, and their nuggets have no comments of several
lines. -/
structure CleanSources (scanner : SourceScanner) (tree : FileTree) : Prop
    extends scanner.SoundSources tree where
  comments : ∀ mention ∈ (scanner.scanShared tree (scanner.sources tree)).mentions,
    ∀ comment ∈ mention.comment, '\n' ∉ comment.toList

instance (scanner : SourceScanner) (tree : FileTree) : Decidable (scanner.CleanSources tree) :=
  decidable_of_iff (scanner.SoundSources tree ∧
      ∀ mention ∈ (scanner.scanShared tree (scanner.sources tree)).mentions,
        ∀ comment ∈ mention.comment, '\n' ∉ comment.toList)
    ⟨fun ⟨sound, comments⟩ => ⟨sound, comments⟩, fun clean => ⟨clean.toSoundSources, clean.comments⟩⟩

theorem CleanSources.clean {scanner : SourceScanner} {tree : FileTree}
    (sources : scanner.CleanSources tree) : (scanner.scan tree).items.Clean where
  keyed := (scanned_scan sources.toSoundSources).1
  scanned := (scanned_scan sources.toSoundSources).2
  comments := clean_of_mentions sources.toSoundSources sources.comments

end SourceScanner

namespace Project

variable {project : Project} {options : BuildOptions} {tree left after : FileTree}
  {report : BuildReport} {scanner : SourceScanner} {items : Items} {header : Header} {place : Place}

/-! ### What a build does -/

/-- The text of a template, under the header that is taken over from the one before. -/
abbrev templateText (header : Header) (items : Items) : String :=
  Catalog.render ⟨Header.standard none header, Locale.templateItems items⟩

theorem templateText_eq (clean : items.Clean) (header : Header) :
    templateText header items = Catalog.render ⟨Header.standard none header, items⟩ := by
  rw [templateText, Locale.templateItems_eq_self clean.keyed clean.scanned]

/-- The template of a clean scan can be written. -/
theorem legible_template (clean : items.Clean) (tidy : Catalog.TidyHeader header) :
    (⟨Header.standard none header, items⟩ : Catalog).Legible :=
  clean.legible (tidy.newline_standard none)

/-- The template of a clean scan is read back. -/
theorem parse_templateText (clean : items.Clean) (tidy : Catalog.TidyHeader header) :
    Catalog.parse (templateText header items) =
      .ok (⟨Header.standard none header, items⟩ : Catalog).reread := by
  rw [templateText_eq clean]
  exact (legible_template clean tidy).parse_render

/-- What a build did that came to its end: it left the items of the scan in the template, and merged
the languages from there on. -/
structure Built (project : Project) (options : BuildOptions) (items : Items)
    (tree left after : FileTree) (report : BuildReport) (header : Header) (place : Place) : Prop where
  loaded : Catalog.loadHeader tree project.locale.templatePath = .ok header
  aims : tree.Aims project.locale.templatePath place
  grows : Grows (· = place) tree left
  found : ∃ stamp, left.resolve project.locale.templatePath =
    .ok (.present place (.file (.text (templateText header items)) stamp))
  changed : report.templateChanged = false ↔
    tree.readText project.locale.templatePath = .ok (templateText header items)
  kept : report.templateChanged = false → left = tree
  merged : project.mergeScanned options items report.templateChanged left = (report.merge, after)

theorem built_of_build (made : SourceScanner.ofProject project options.showContext = .ok scanner)
    (rooted : tree.Rooted) (built : project.build options tree = (.ok report, after)) :
    ∃ left header place,
      Built project options (scanner.scan tree).items tree left after report header place := by
  obtain ⟨left, saved, merged⟩ := build_eq_ok made built
  unfold Locale.saveTemplate Catalog.save at saved
  cases loaded : Catalog.loadHeader tree project.locale.templatePath with
  | error error =>
    rw [loaded] at saved
    cases saved
  | ok header =>
    rw [loaded] at saved
    obtain ⟨place, stamp, aims, grows, found, unchanged, kept⟩ := Catalog.saveText_eq_ok rooted saved
    exact ⟨left, header, place, loaded, aims, grows, ⟨stamp, found⟩, unchanged, kept, merged⟩

theorem Built.tidy (built : Built project options items tree left after report header place) :
    Catalog.TidyHeader header :=
  Catalog.tidyHeader_of_loadHeader built.loaded

/-- A build of clean sources leaves a sound tree behind before it merges. -/
theorem Built.sound (built : Built project options items tree left after report header place)
    (clean : items.Clean) (good : tree.Sound) : left.Sound := by
  obtain ⟨stamp, found⟩ := built.found
  refine good.of_text built.grows (leads_of_resolve found).get?.1 fun catalog parsed => ?_
  cases (parse_templateText clean built.tidy).symm.trans parsed
  exact (legible_template clean built.tidy).tidy_reread

theorem mergeScanned_eq_none (merging : options.merge = true) {templateChanged : Bool}
    (merged : project.mergeScanned options items templateChanged tree = (none, after)) :
    templateChanged = false ∧ project.lacksLanguage tree = false ∧ after = tree := by
  unfold mergeScanned at merged
  split at merged
  · cases merged
  · rename_i idle
    cases merged
    simp only [merging, Bool.true_and, Bool.or_eq_true, not_or, Bool.not_eq_true] at idle
    exact ⟨idle.1, idle.2, rfl⟩

theorem mergeScanned_eq_some {templateChanged : Bool} {merge : MergeReport}
    (merged : project.mergeScanned options items templateChanged tree = (some merge, after)) :
    project.locale.mergeAll project.settings.languages items tree = (merge, after) := by
  unfold mergeScanned at merged
  split at merged
  · cases merged
    rfl
  · cases merged

theorem mergeScanned_of_idle {templateChanged : Bool} (same : templateChanged = false)
    (complete : project.lacksLanguage tree = false) (options : BuildOptions) (items : Items) :
    project.mergeScanned options items templateChanged tree = (none, tree) := by
  unfold mergeScanned
  rw [same, complete, Bool.or_self, Bool.and_false]
  rfl

/-! ### The second build -/

/-- A build whose template is found as it would write it, and whose languages all have catalogs,
changes nothing. -/
theorem Built.idle
    (built : Built project options items tree left after report header place)
    (same : tree.readText project.locale.templatePath = .ok (templateText header items))
    (complete : project.lacksLanguage tree = false) :
    report.templateChanged = false ∧ report.merge = none ∧ after = tree := by
  have unchanged := built.changed.mpr same
  obtain rfl := built.kept unchanged
  have merged := built.merged
  rw [mergeScanned_of_idle unchanged complete] at merged
  obtain ⟨none, same⟩ := Prod.mk.inj merged
  exact ⟨unchanged, none.symm, same.symm⟩

/-- A build that is to merge does so exactly if it changes the template or if some language had no
catalog before it. -/
theorem Built.merges_iff
    (built : Built project options items tree left after report header place)
    (merging : options.merge = true) :
    report.merge.isSome = true ↔
      report.templateChanged = true ∨ project.lacksLanguage tree = true := by
  constructor
  · intro done
    refine Decidable.byContradiction fun idle => ?_
    simp only [not_or, Bool.not_eq_true] at idle
    obtain ⟨-, none, -⟩ := built.idle (built.changed.mp idle.1) idle.2
    rw [none] at done
    cases done
  · intro due
    have merged := built.merged
    cases outcome : report.merge with
    | some merge => rfl
    | none =>
      rw [outcome] at merged
      obtain ⟨unchanged, complete, -⟩ := mergeScanned_eq_none merging merged
      rw [built.kept unchanged] at complete
      rw [unchanged, complete] at due
      cases due with
      | inl changed => cases changed
      | inr lacking => cases lacking

/-- **A build that finds the template of another one would write the same text**, whatever was said
above the items. -/
theorem Built.text_eq {others : BuildOptions} {next last : FileTree} {again : BuildReport}
    {now : Header} {goal : Place}
    (first : Built project options items tree left after report header place)
    (held : after.readText project.locale.templatePath = .ok (templateText header items))
    (second : Built project others items after next last again now goal) :
    templateText now items = templateText header items := by
  rw [templateText, Catalog.loadHeader_render (first.tidy.newline_standard none) held second.loaded,
    Catalog.standard_reread_template first.tidy]

/-- A build that finds the catalog of a language in the place of the template changes it. -/
theorem Built.changed_of_language {culture : String} {template : Items} {catalog : Catalog}
    (built : Built project options items tree left after report header place)
    (tidy : Catalog.TidyHeader catalog.header)
    (held : tree.readText project.locale.templatePath =
      .ok (Locale.mergedText culture template catalog)) : report.templateChanged = true := by
  refine Decidable.byContradiction fun unchanged => ?_
  have text := built.changed.mp (Bool.eq_false_iff.mpr unchanged)
  rw [held] at text
  exact Catalog.render_ne_of_language tidy built.tidy
    (Except.ok.inj text)

/-- A build that finds a template and can read it comes to its end. -/
theorem exists_build (made : SourceScanner.ofProject project options.showContext = .ok scanner)
    {text : String} {stamp : Nat} {catalog : Catalog}
    (found : tree.resolve project.locale.templatePath = .ok (.present place (.file (.text text) stamp)))
    (parsed : Catalog.parse text = .ok catalog) :
    ∃ report after, project.build options tree = (.ok report, after) := by
  have loaded : Catalog.loadHeader tree project.locale.templatePath = .ok catalog.header := by
    rw [Catalog.loadHeader_eq, Catalog.loadOrEmpty_eq_ok.mpr
      (.inr ⟨text, readText_of_resolve found, parsed⟩)]
    rfl
  obtain ⟨changed, left, saved⟩ := Catalog.saveText_of_resolve found
    (templateText catalog.header (scanner.scan tree).items)
  rw [build_of_scanner made]
  unfold buildScanned Locale.saveTemplate Catalog.save
  rw [loaded]
  dsimp only
  rw [saved]
  exact ⟨_, _, rfl⟩

/-- Every language of the project has a catalog after a build that merged them all. -/
theorem Built.complete (built : Built project options items tree left after report header place)
    (rooted : left.Rooted) (merging : options.merge = true) (success : report.isSuccess = true) :
    after.Rooted ∧ project.lacksLanguage after = false := by
  have merged := built.merged
  cases outcome : report.merge with
  | none =>
    rw [outcome] at merged
    obtain ⟨-, complete, rfl⟩ := mergeScanned_eq_none merging merged
    exact ⟨rooted, complete⟩
  | some merge =>
    rw [outcome] at merged
    rw [BuildReport.isSuccess, outcome] at success
    obtain ⟨cultures, listed, turns, all⟩ :=
      Locale.turns_of_success (mergeScanned_eq_some merged) success
    obtain ⟨names, -, -, members⟩ := Locale.mem_cultures listed
    have kept := ((Locale.carries_rooted project.locale items).mergeEach rooted cultures).1
    rw [turns] at kept
    refine ⟨kept, List.any_eq_false.mpr fun culture wanted => ?_⟩
    obtain ⟨summary, member, rfl⟩ := all culture ((members culture).mpr (.inr wanted))
    rw [show merge = (project.locale.mergeEach items left cultures).1 by rw [turns]] at member
    obtain ⟨place, content, stamp, -, found⟩ := Locale.resolve_of_reported rooted member
    rw [turns] at found
    simp [Locale.hasLanguage, isFile_iff.mpr ⟨place, content, stamp, found⟩]

/-- The template stays as a build left it where no catalog that was merged stands in its place. -/
theorem Built.found_of_apart (built : Built project options items tree left after report header place)
    (rooted : tree.Rooted)
    (apart : ∀ merge ∈ report.merge, ∀ summary ∈ merge.languages,
      ¬ tree.Shares (project.locale.languagePath summary.culture) project.locale.templatePath) :
    ∃ stamp, after.resolve project.locale.templatePath =
      .ok (.present place (.file (.text (templateText header items)) stamp)) := by
  obtain ⟨stamp, found⟩ := built.found
  have merged := built.merged
  unfold mergeScanned at merged
  split at merged
  · cases listed : project.locale.cultures left project.settings.languages with
    | error error =>
      rw [Locale.mergeAll, listed] at merged
      obtain ⟨-, rfl⟩ := Prod.mk.inj merged
      exact ⟨stamp, found⟩
    | ok cultures =>
      rw [Locale.mergeAll_of_cultures listed] at merged
      obtain ⟨done, rfl⟩ := Prod.mk.inj merged
      obtain ⟨-, grows, -⟩ := (Locale.carries_rooted project.locale items).mergeEach
        (built.grows.rooted rooted) cultures
      have untouched :
          ¬ project.locale.Touched left (project.locale.mergeEach items left cultures).1 place := by
        rintro ⟨summary, member, aims⟩
        exact apart _ (Option.mem_def.mpr done.symm) summary member
          ⟨place, built.grows.aims.mp aims, built.aims⟩
      exact ⟨stamp, grows.resolve found ((grows.elsewhere untouched).mpr (leads_of_resolve found).get?.1)⟩
  · obtain ⟨-, rfl⟩ := Prod.mk.inj merged
    exact ⟨stamp, found⟩

/-- Where a catalog that was merged stands in the place of the template, a catalog of a language is
found there. -/
theorem Built.found_of_shared {good : FileTree → Prop} {kind : Catalog → Prop}
    (carries : Locale.Carries project.locale items good kind)
    (built : Built project options items tree left after report header place) (start : good left)
    {merge : MergeReport} (done : report.merge = some merge) {summary : LanguageSummary}
    (member : summary ∈ merge.languages)
    (shares : tree.Shares (project.locale.languagePath summary.culture) project.locale.templatePath) :
    ∃ culture catalog stamp, kind catalog ∧ after.resolve project.locale.templatePath =
      .ok (.present place (.file (.text (Locale.mergedText culture items catalog)) stamp)) := by
  obtain ⟨stamp, found⟩ := built.found
  have merged := built.merged
  rw [done] at merged
  obtain ⟨cultures, -, turns⟩ := Locale.turns_of_mergeAll (mergeScanned_eq_some merged) member
  obtain ⟨-, grows, held⟩ := carries.mergeEach start cultures
  rw [turns] at grows held
  obtain ⟨spot, aims, own⟩ := shares
  have reaches := built.grows.aims.mpr (own.unique built.aims ▸ aims)
  obtain ⟨last, -, -, catalog, later, known, there⟩ := held place ⟨summary, member, reaches⟩
  exact ⟨last.culture, catalog, later, known, grows.resolve found there⟩

/-- **A second build of the same sources changes nothing exactly if the first one merged no catalog
that stands in the place of the template.** -/
theorem build_repeated_iff {again : BuildReport} {last : FileTree}
    (made : SourceScanner.ofProject project options.showContext = .ok scanner)
    (rooted : tree.Rooted) (merging : options.merge = true)
    (built : project.build options tree = (.ok report, after)) (success : report.isSuccess = true)
    (sources : (scanner.scan after).items = (scanner.scan tree).items)
    (rebuilt : project.build options after = (.ok again, last)) :
    (again.templateChanged = false ∧ again.merge = none ∧ last = after) ↔
      ∀ merge ∈ report.merge, ∀ summary ∈ merge.languages,
        ¬ tree.Shares (project.locale.languagePath summary.culture) project.locale.templatePath := by
  obtain ⟨left, header, place, first⟩ := built_of_build made rooted built
  have leftRooted := first.grows.rooted rooted
  obtain ⟨afterRooted, complete⟩ := first.complete leftRooted merging success
  obtain ⟨next, now, goal, second⟩ := built_of_build made afterRooted rebuilt
  rw [sources] at second
  constructor
  · rintro ⟨unchanged, -⟩ merge done summary member shares
    obtain ⟨culture, catalog, stamp, known, found⟩ := first.found_of_shared
      (Locale.carries_rooted project.locale (scanner.scan tree).items) leftRooted done member shares
    have changed := second.changed_of_language known (readText_of_resolve found)
    rw [unchanged] at changed
    cases changed
  · intro apart
    obtain ⟨stamp, found⟩ := first.found_of_apart rooted apart
    have held := readText_of_resolve found
    exact second.idle (first.text_eq held second ▸ held) complete

/-! ### Builds of one source and one language -/

/-- A directory with one source, and something in the place of a catalog. -/
def catalogTree (catalog : Entry) : FileTree :=
  ⟨.ofList [(["a.html"], .file (.text "[[[Hello]]]") 0), (["locale"], .directory),
    (["locale", "fr"], .directory), (["locale", "fr", Locale.languageName], catalog)], [], 1⟩

/-- A build of the sample project that merged its only language. The tree that it left has the same
sources. -/
structure MergedSample (tree : FileTree) (scanner : SourceScanner) (report : BuildReport)
    (after : FileTree) : Prop where
  made : SourceScanner.ofProject sample BuildOptions.standard.showContext = .ok scanner
  rooted : tree.Rooted
  fits : tree.Fits
  sources : scanner.CleanSources tree
  built : sample.build .standard tree = (.ok report, after)
  merged : ∃ summary, summary.culture = "fr" ∧ report.merge = some ⟨[summary], []⟩
  listed : sample.locale.languages after = .ok ["fr"]
  same : (scanner.scan after).items = (scanner.scan tree).items

theorem exists_mergedSample (tree : FileTree) (summary : LanguageSummary)
    (rooted : tree.Rooted) (fits : tree.Fits) (named : summary.culture = "fr")
    (checked : (SourceScanner.ofProject sample BuildOptions.standard.showContext).toOption.any
      fun scanner => decide (scanner.CleanSources tree) &&
        (let result := sample.build .standard tree
        result.1.toOption.any (fun report => decide (report.merge = some ⟨[summary], []⟩)) &&
          decide (sample.locale.languages result.2 = .ok ["fr"]) &&
          decide ((scanner.scan result.2).items = (scanner.scan tree).items))) :
    ∃ scanner report after, MergedSample tree scanner report after := by
  obtain ⟨scanner, made, facts⟩ := exists_of_any_toOption _ _ checked
  simp only [Bool.and_eq_true, decide_eq_true_eq] at facts
  obtain ⟨clean, ⟨done, listed⟩, same⟩ := facts
  obtain ⟨report, accepted, merged⟩ := exists_of_any_toOption _ _ done
  have built : sample.build .standard tree = (.ok report, (sample.build .standard tree).2) := by
    rw [← accepted]
  exact ⟨scanner, report, _, made, rooted, fits, clean, built,
    ⟨summary, named, of_decide_eq_true merged⟩, listed, same⟩

theorem MergedSample.success {tree : FileTree} (build : MergedSample tree scanner report after) :
    report.isSuccess = true := by
  obtain ⟨summary, -, merged⟩ := build.merged
  rw [BuildReport.isSuccess, merged]
  rfl

theorem mergedSample_emptyCatalog :
    ∃ scanner report after, MergedSample (catalogTree (.file (.text "") 0)) scanner report after :=
  exists_mergedSample (catalogTree (.file (.text "") 0)) ⟨"fr", 1, 0, true⟩ (by decide +kernel)
    (by decide +kernel) rfl (by decide +kernel)

/-- A build that merges a language, and the next one, which changes nothing. -/
theorem build_repeated_emptyCatalog :
    ∃ scanner first after second last,
      MergedSample (catalogTree (.file (.text "") 0)) scanner first after ∧
      first.isSuccess = true ∧ sample.build .standard after = (.ok second, last) ∧
      second.templateChanged = false ∧ second.merge = none ∧ last = after := by
  obtain ⟨scanner, first, after, build⟩ := mergedSample_emptyCatalog
  obtain ⟨left, header, place, start⟩ := built_of_build build.made build.rooted build.built
  have language : (catalogTree (.file (.text "") 0)).resolve (sample.locale.languagePath "fr") =
      .ok (.present ["locale", "fr", "messages.po"] (.file (.text "") 0)) := by decide +kernel
  have template : (catalogTree (.file (.text "") 0)).resolve sample.locale.templatePath =
      .ok (.absent ["locale", "messages.pot"]) := by decide +kernel
  have apart : ∀ merge ∈ first.merge, ∀ summary ∈ merge.languages,
      ¬ (catalogTree (.file (.text "") 0)).Shares (sample.locale.languagePath summary.culture)
        sample.locale.templatePath := by
    obtain ⟨own, named, merged⟩ := build.merged
    rw [merged]
    rintro merge ⟨⟩ summary member ⟨spot, aims, again⟩
    cases List.mem_singleton.mp member
    rw [named] at aims
    have same := ((aims_of_resolve language).unique aims).trans (again.unique (aims_of_resolve template))
    exact absurd same (by decide)
  obtain ⟨stamp, found⟩ := start.found_of_apart build.rooted apart
  obtain ⟨second, last, rebuilt⟩ :=
    exists_build build.made found (parse_templateText build.sources.clean start.tidy)
  exact ⟨scanner, first, after, second, last, build, build.success, rebuilt,
    (build_repeated_iff build.made build.rooted rfl build.built build.success build.same rebuilt).mpr apart⟩

/-- A build that merges a language whose catalog is a link to the template, and the next one, which
changes the template. -/
theorem build_changes_linkedCatalog :
    ∃ scanner first after second last,
      MergedSample (catalogTree (.link "../messages.pot")) scanner first after ∧
      first.isSuccess = true ∧ sample.build .standard after = (.ok second, last) ∧
      second.templateChanged = true := by
  obtain ⟨scanner, first, after, build⟩ := exists_mergedSample (catalogTree (.link "../messages.pot"))
    ⟨"fr", 0, 0, true⟩ (by decide +kernel) (by decide +kernel) rfl (by decide +kernel)
  obtain ⟨left, header, place, start⟩ := built_of_build build.made build.rooted build.built
  have clean := build.sources.clean
  have sound := start.sound clean ⟨build.rooted, build.fits.tidyTexts⟩
  have language : (catalogTree (.link "../messages.pot")).resolve (sample.locale.languagePath "fr") =
      .ok (.absent ["locale", "messages.pot"]) := by decide +kernel
  have template : (catalogTree (.link "../messages.pot")).resolve sample.locale.templatePath =
      .ok (.absent ["locale", "messages.pot"]) := by decide +kernel
  obtain ⟨summary, named, merged⟩ := build.merged
  have shares : (catalogTree (.link "../messages.pot")).Shares
      (sample.locale.languagePath summary.culture) sample.locale.templatePath :=
    ⟨_, named ▸ aims_of_resolve language, aims_of_resolve template⟩
  obtain ⟨culture, catalog, stamp, tidy, found⟩ := start.found_of_shared
    (Locale.carries_sound sample.locale clean.writable) sound merged (List.mem_singleton_self _) shares
  obtain ⟨second, last, rebuilt⟩ := exists_build build.made found
    (Locale.parse_mergedText clean.writable tidy culture)
  obtain ⟨rooted, -⟩ := start.complete sound.rooted rfl build.success
  obtain ⟨next, now, goal, again⟩ := built_of_build build.made rooted rebuilt
  exact ⟨scanner, first, after, second, last, build, build.success, rebuilt,
    again.changed_of_language tidy.header (readText_of_resolve found)⟩

end Project

end Localization

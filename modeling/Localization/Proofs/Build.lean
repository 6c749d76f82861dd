import Localization.Build
import Localization.Proofs.FileTree
import Localization.Proofs.Languages
import Localization.Proofs.Scanning

/-
**Templates that builds write.**

A build stores the items of its scan as the template, and what it does to the languages leaves the
template as it is. Whether the template can be read back is then a matter of the comments alone.

* `Locale.writes_mergeAll` — a merge of languages writes their catalogs and nothing else.
* `Project.build_eq_ok`, `Project.build_eq_error` — what a build did that came to its end, or did not.
* `Project.template_build` — the template that a build leaves behind.
* `Project.readsBack_build_iff` — when that template has the ids and the references of the scan.
-/

namespace Localization

open FileTree

/-! ### What a merge writes -/

namespace Locale

variable {locale : Locale} {tree : FileTree}

theorem isFileName_templateName : IsFileName templateName := by
  constructor <;> decide

theorem isFileName_languageName : IsFileName languageName := by
  constructor <;> decide

theorem writes_mergeEach (unlinked : tree.Unlinked languageName) (template : Items)
    (cultures : List String) :
    Writes languageName tree (locale.mergeEach template tree cultures).2 := by
  refine holds_mergeEach (Writes languageName tree) (Writes.refl languageName tree) ?_
  intro now writes culture _ text
  exact writes.trans (Writes.store isFileName_languageName (writes.unlinked unlinked) (.text text))

/-- **A merge of languages writes their catalogs and nothing else.** -/
theorem writes_mergeAll (unlinked : tree.Unlinked languageName) (configured : List String)
    (template : Items) : Writes languageName tree (locale.mergeAll configured template tree).2 := by
  unfold mergeAll
  split
  · exact Writes.refl languageName tree
  · exact writes_mergeEach unlinked template _

/-- Items as a template holds them are saved as they are. -/
theorem templateItems_eq_self {items : Items} (keyed : items.Keyed)
    (scanned : ∀ item ∈ items.values, Catalog.Scanned item) : templateItems items = items := by
  have live : items.values.filter (!·.obsolete) = items.values := by
    refine List.filter_eq_self.mpr fun item member => ?_
    rw [(scanned item member).obsolete]
    rfl
  have entries : items.values.map (fun item => (item.id, item.asTemplate)) = items.entries := by
    have each : ∀ entry ∈ items.entries, (entry.2.id, entry.2.asTemplate) = entry := by
      intro (id, item) member
      have inside : item ∈ items.values := List.mem_map_of_mem member
      rw [keyed id item (SortedMap.get?_eq_some.mpr member), (scanned item inside).untouched]
    rw [SortedMap.values, List.map_map]
    exact (List.map_congr_left each).trans (List.map_id items.entries)
  rw [templateItems, live, entries, SortedMap.ofList_of_sorted items.sorted]

end Locale

/-! ### Builds -/

namespace Project

variable {project : Project} {options : BuildOptions} {tree after : FileTree}
  {report : BuildReport} {scanner : SourceScanner}

theorem writes_mergeScanned (unlinked : tree.Unlinked Locale.languageName) (items : Items)
    (templateChanged : Bool) :
    Writes Locale.languageName tree
      (project.mergeScanned options items templateChanged tree).2 := by
  unfold mergeScanned
  split
  · exact Locale.writes_mergeAll unlinked _ items
  · exact Writes.refl Locale.languageName tree

/-- A build that can scan saves its items as template, and merges the languages if that succeeds. -/
theorem build_of_scanner (made : SourceScanner.ofProject project options.showContext = .ok scanner) :
    project.build options tree = project.buildScanned options (scanner.scan tree) tree := by
  rw [build, made]

/-- What a build did that came to its end. -/
theorem build_eq_ok (made : SourceScanner.ofProject project options.showContext = .ok scanner)
    (built : project.build options tree = (.ok report, after)) :
    ∃ left, project.locale.saveTemplate tree (scanner.scan tree).items = (.ok report.templateChanged, left) ∧
      project.mergeScanned options (scanner.scan tree).items report.templateChanged left =
        (report.merge, after) := by
  rw [build_of_scanner made] at built
  unfold buildScanned at built
  cases saved : project.locale.saveTemplate tree (scanner.scan tree).items with
  | mk outcome left =>
    rw [saved] at built
    cases outcome with
    | error failure => cases built
    | ok changed =>
      cases built
      exact ⟨left, rfl, rfl⟩

/-- A build that can scan and does not come to its end could not save the template. -/
theorem unsaved_of_build {error : BuildError}
    (made : SourceScanner.ofProject project options.showContext = .ok scanner)
    (failed : project.build options tree = (.error error, after)) :
    ∃ cause, project.locale.saveTemplate tree (scanner.scan tree).items = (.error cause, after) ∧
      error = .store cause := by
  rw [build_of_scanner made] at failed
  unfold buildScanned at failed
  cases saved : project.locale.saveTemplate tree (scanner.scan tree).items with
  | mk outcome left =>
    rw [saved] at failed
    cases outcome with
    | ok changed => cases failed
    | error cause =>
      cases failed
      exact ⟨cause, rfl, rfl⟩

/-- A build that does not come to its end could not scan, or could not save the template. -/
theorem build_eq_error {error : BuildError} (failed : project.build options tree = (.error error, after)) :
    after = tree ∨ ∃ items failure, project.locale.saveTemplate tree items = (.error failure, after) := by
  cases made : SourceScanner.ofProject project options.showContext with
  | error error =>
    rw [build, made] at failed
    cases failed
    exact .inl rfl
  | ok scanner =>
    obtain ⟨cause, saved, -⟩ := unsaved_of_build made failed
    exact .inr ⟨_, cause, saved⟩

/-- **A build where there is no template stores one**, and merges the languages with its items. -/
theorem store_of_build (made : SourceScanner.ofProject project options.showContext = .ok scanner)
    (missing : tree.readText project.locale.templatePath = .error .notFound)
    (built : project.build options tree = (.ok report, after)) :
    ∃ left,
      tree.store project.locale.templatePath (.text (Catalog.render ⟨Header.standard none .empty,
        Locale.templateItems (scanner.scan tree).items⟩)) = (.ok (), left) ∧
      after = (project.mergeScanned options (scanner.scan tree).items true left).2 := by
  have header : Catalog.loadHeader tree project.locale.templatePath = .ok .empty := by
    rw [Catalog.loadHeader, Catalog.load?, missing]
    rfl
  obtain ⟨left, saved, merged⟩ := build_eq_ok made built
  unfold Locale.saveTemplate Catalog.save at saved
  rw [header] at saved
  dsimp only at saved
  unfold Catalog.saveText at saved
  rw [missing] at saved
  dsimp only at saved
  unfold Catalog.saveText.replace at saved
  generalize tree.store project.locale.templatePath _ = stored at saved ⊢
  obtain ⟨outcome, stored⟩ := stored
  cases outcome with
  | error failure => cases saved
  | ok done =>
    obtain ⟨changed, rfl⟩ := Prod.mk.inj saved
    rw [← Except.ok.inj changed] at merged
    exact ⟨stored, rfl, (congrArg Prod.snd merged).symm⟩

/-- A stored template is what a build leaves behind: the languages have catalogs of another name. -/
theorem readText_mergeScanned {left : FileTree} {text : String}
    (noTemplate : tree.Unlinked Locale.templateName) (noLanguage : tree.Unlinked Locale.languageName)
    (stored : tree.store project.locale.templatePath (.text text) = (.ok (), left)) (items : Items)
    (templateChanged : Bool) :
    (project.mergeScanned options items templateChanged left).2.readText
      project.locale.templatePath = .ok text := by
  unfold Locale.templatePath at stored ⊢
  obtain ⟨place, stamp, found, named⟩ :=
    resolve_store Locale.isFileName_templateName noTemplate stored
  have before : Writes Locale.templateName tree left := by
    rw [show left = _ from (congrArg Prod.snd stored).symm]
    exact Writes.store Locale.isFileName_templateName noTemplate (.text text)
  have later : Writes Locale.languageName left
      (project.mergeScanned options items templateChanged left).2 :=
    writes_mergeScanned (before.unlinked noLanguage) items templateChanged
  refine readText_of_resolve (later.resolve found ?_)
  rw [named]
  decide

/-- **Where there is no template, a build stores the items of its scan as they are.** No link may
stand where a template or a catalog is written, or that need not be what the build leaves behind. -/
theorem template_build (made : SourceScanner.ofProject project options.showContext = .ok scanner)
    (sound : scanner.SoundSources tree)
    (missing : tree.readText project.locale.templatePath = .error .notFound)
    (built : project.build options tree = (.ok report, after)) :
    ∃ text left, text = Catalog.render ⟨Header.standard none .empty, (scanner.scan tree).items⟩ ∧
      tree.store project.locale.templatePath (.text text) = (.ok (), left) ∧
      after = (project.mergeScanned options (scanner.scan tree).items true left).2 ∧
      (tree.Unlinked Locale.templateName → tree.Unlinked Locale.languageName →
        after.readText project.locale.templatePath = .ok text) := by
  obtain ⟨keyed, scanned⟩ := SourceScanner.scanned_scan sound
  obtain ⟨left, stored, rfl⟩ := store_of_build made missing built
  rw [Locale.templateItems_eq_self keyed scanned] at stored
  exact ⟨_, left, rfl, stored, rfl, fun noTemplate noLanguage =>
    readText_mergeScanned noTemplate noLanguage stored _ true⟩

/-- **The template that a build writes has the ids and the references of the scan exactly if the
comments agree with it.** They do if no nugget has a comment of several lines. -/
theorem readsBack_build_iff
    (made : SourceScanner.ofProject project options.showContext = .ok scanner)
    (sound : scanner.SoundSources tree)
    (missing : tree.readText project.locale.templatePath = .error .notFound)
    (built : project.build options tree = (.ok report, after)) :
    ∃ text left, tree.store project.locale.templatePath (.text text) = (.ok (), left) ∧
      after = (project.mergeScanned options (scanner.scan tree).items true left).2 ∧
      (tree.Unlinked Locale.templateName → tree.Unlinked Locale.languageName →
        after.readText project.locale.templatePath = .ok text) ∧
      (Catalog.ReadsBack text (scanner.scan tree).items ↔
        Catalog.CommentsAgree (scanner.scan tree).items) ∧
      ((∀ mention ∈ (scanner.scanShared tree (scanner.sources tree)).mentions,
        ∀ comment ∈ mention.comment, '\n' ∉ comment.toList) →
          Catalog.ReadsBack text (scanner.scan tree).items) := by
  obtain ⟨keyed, scanned⟩ := SourceScanner.scanned_scan sound
  obtain ⟨text, left, rfl, stored, same, kept⟩ := template_build made sound missing built
  have readsBack : Catalog.ReadsBack (Catalog.render ⟨Header.standard none .empty,
      (scanner.scan tree).items⟩) (scanner.scan tree).items ↔
        Catalog.CommentsAgree (scanner.scan tree).items :=
    Catalog.readsBack_iff nofun keyed scanned
  refine ⟨_, left, stored, same, kept, readsBack, fun clean => ?_⟩
  have agree := Catalog.commentsAgree_of_clean keyed (SourceScanner.clean_of_mentions sound clean)
  exact readsBack.mpr agree

/-! ### Builds of one source -/

/-- A directory with one source. -/
def sampleTree (source : String) : FileTree :=
  ⟨.ofList [(["a.html"], .file (.text source) 0)], [], 1⟩

/-- A project in that directory. -/
def sample : Project where
  directory := ⟨"/"⟩
  settings :=
    { Settings.standard with
      directoriesToScan := ["a.html"], includePatterns := ["*"], excludePatterns := [] }

theorem unlinked_sampleTree (source name : String) : (sampleTree source).Unlinked name := by
  have entries : (sampleTree source).entries =
      SortedMap.empty.insert ["a.html"] (.file (.text source) 0) := rfl
  intro place target there
  unfold FileTree.get? at there
  rw [entries, SortedMap.get?_insert] at there
  split at there
  · cases there
  · split at there <;> cases there

/-- A build of the sample project, from a tree without a template to the end. -/
structure SampleBuild (source : String) (scanner : SourceScanner) (report : BuildReport)
    (after : FileTree) : Prop where
  made : SourceScanner.ofProject sample BuildOptions.standard.showContext = .ok scanner
  sound : scanner.SoundSources (sampleTree source)
  missing : (sampleTree source).readText sample.locale.templatePath = .error .notFound
  built : sample.build .standard (sampleTree source) = (.ok report, after)

/-- A build of the sample project comes to its end, if that can be checked. -/
theorem exists_sampleBuild (source : String) (test : SourceScanner → Bool)
    (checked : (SourceScanner.ofProject sample BuildOptions.standard.showContext).toOption.any
      fun scanner => scanner.SoundSources (sampleTree source) && test scanner)
    (missing : (sampleTree source).readText sample.locale.templatePath = .error .notFound)
    (done : (sample.build .standard (sampleTree source)).1.toOption.isSome) :
    ∃ scanner report after, SampleBuild source scanner report after ∧ test scanner = true := by
  obtain ⟨scanner, found, facts⟩ := (Option.any_eq_true _ _).mp checked
  obtain ⟨report, accepted⟩ := Option.isSome_iff_exists.mp done
  rw [Bool.and_eq_true, decide_eq_true_eq] at facts
  have built : sample.build .standard (sampleTree source) =
      (.ok report, (sample.build .standard (sampleTree source)).2) := by
    rw [← eq_ok_of_mem_toOption accepted]
  exact ⟨scanner, report, _, ⟨eq_ok_of_mem_toOption found, facts.1, missing, built⟩, facts.2⟩

/-- A source with a nugget whose comment is on one line. -/
def plainSource : String := "[[[Hello %0|||World///greeting]]]"

/-- The comments of the nuggets of the source are on one line. -/
theorem readsBack_build_plainSource :
    ∃ scanner report after text, SampleBuild plainSource scanner report after ∧
      after.readText sample.locale.templatePath = .ok text ∧
      (scanner.scan (sampleTree plainSource)).items.keys = ["Hello %0"] ∧
      Catalog.ReadsBack text (scanner.scan (sampleTree plainSource)).items := by
  obtain ⟨scanner, report, after, build, facts⟩ := exists_sampleBuild plainSource
    (fun scanner =>
      let tree := sampleTree plainSource
      (scanner.scan tree).items.keys = ["Hello %0"] &&
        (scanner.scanShared tree (scanner.sources tree)).mentions.all fun mention =>
          mention.comment.all fun comment => '\n' ∉ comment.toList)
    (by decide +kernel) (by decide +kernel) (by decide +kernel)
  rw [Bool.and_eq_true, decide_eq_true_eq] at facts
  obtain ⟨ids, comments⟩ := facts
  obtain ⟨text, left, -, -, kept, -, readsBack⟩ :=
    readsBack_build_iff build.made build.sound build.missing build.built
  refine ⟨scanner, report, after, text, build, ?_, ids, readsBack fun mention member comment own => ?_⟩
  · exact kept (unlinked_sampleTree _ _) (unlinked_sampleTree _ _)
  · have clean := List.all_eq_true.mp comments mention member
    rw [own] at clean
    exact of_decide_eq_true clean

/-- A source with a nugget whose comment goes on in a second line. -/
def brokenSource : String := "[[[Hello///first\nsecond]]]"

/-- The template that is written for a comment of two lines cannot be read. -/
theorem unreadable_build_brokenSource :
    ∃ scanner report after text, SampleBuild brokenSource scanner report after ∧
      after.readText sample.locale.templatePath = .ok text ∧
      ∀ catalog, Catalog.parse text ≠ .ok catalog := by
  obtain ⟨scanner, report, after, build, facts⟩ := exists_sampleBuild brokenSource
    (fun scanner => (scanner.scan (sampleTree brokenSource)).items.values.any fun item =>
      (Catalog.commentEntries item).toOption.isNone)
    (by decide +kernel) (by decide +kernel) (by decide +kernel)
  obtain ⟨text, left, written, -, -, kept⟩ :=
    template_build build.made build.sound build.missing build.built
  refine ⟨scanner, report, after, text, build, ?_, fun catalog parsed => ?_⟩
  · exact kept (unlinked_sampleTree _ _) (unlinked_sampleTree _ _)
  · obtain ⟨item, inside, failed⟩ := List.any_eq_true.mp facts
    have scanned := (SourceScanner.scanned_scan build.sound).2
    rw [written] at parsed
    obtain ⟨strays, own, read⟩ := Catalog.readable_of_parse scanned parsed item inside
    rw [read] at failed
    cases failed

end Project

end Localization

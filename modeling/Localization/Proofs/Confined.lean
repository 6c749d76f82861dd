import Localization.Proofs.FileTree.Made
import Localization.Proofs.Languages
import Localization.Proofs.Projection.Output
import Localization.Proofs.Settings

/-
**Known cultures lead out of no directory.**

A known culture is the name of a directory, whatever letters it is written in. So the catalogs that a build
writes and the copies that a projection makes are stored below the directory that is meant for them.

* `FileTree.Below`, `FileTree.OnWay` — where paths of names below a directory aim, and their beginnings.
* `FileTree.Confined` — files change below a directory only, and what is new is on the way there.
* `Culture.ordinary_of_isKnown` — a known culture is one component by itself.
* `Locale.components_languagePath`, `Locale.languagePath_apart` — the paths of catalogs.
* `Project.confined_build` — a build is confined to its locale directory.
* `Projection.target_of_plan`, `Projection.confined_run` — a projection is confined to its output.
* `Culture.known_confined` — all of this for known cultures.
-/

namespace Localization

open FileTree

variable {tree after : FileTree}

/-! ### Below a directory -/

namespace FileTree

variable {directory : Path} {goal : Place} {names : List String}

/-- A path of names below a directory aims at the place. -/
def Below (tree : FileTree) (directory : Path) (goal : Place) : Prop :=
  ∃ names, AreFileNames names ∧ tree.Aims (directory.join (Path.ofNames names).text) goal

/-- A path that begins like a path of names below a directory aims at the place. -/
def OnWay (tree : FileTree) (directory : Path) (goal : Place) : Prop :=
  ∃ names front, AreFileNames names ∧
    front.components <+: directory.components ++ names.map .normal ∧ tree.Aims front goal

/-- **Without links, what is below a directory stands in it.** -/
theorem Below.inside (unlinked : ∀ place target, tree.get? place ≠ some (.link target))
    (below : tree.Below directory goal) :
    ∃ place names, tree.Aims directory place ∧ AreFileNames names ∧ goal = place ++ names := by
  obtain ⟨names, files, aims⟩ := below
  obtain ⟨place, start, same, -⟩ := aims_join unlinked files aims
  exact ⟨place, names, (aims_iff_solidParts unlinked).mpr start, files, same⟩

/-- What is confined to a directory: files change below it only, and what is new stands there or on the way
there. -/
structure Confined (directory : Path) (before after : FileTree) : Prop where
  grows : Grows (before.Below directory) before after
  made : ∀ {place entry}, after.get? place = some entry → before.get? place = none →
    before.OnWay directory place

theorem Confined.refl (directory : Path) (tree : FileTree) : Confined directory tree tree where
  grows := Grows.refl _ tree
  made there missing := nomatch there.symm.trans missing

/-- **A file that is stored below a directory is confined to it**, behind whatever is. -/
theorem Confined.store (confined : Confined directory tree after) (rooted : tree.Rooted)
    (files : AreFileNames names) (content : Content) :
    Confined directory tree (after.store (directory.join (Path.ofNames names).text) content).2 where
  grows := by
    have stored := grows_store (confined.grows.rooted rooted)
      (directory.join (Path.ofNames names).text) content
    exact confined.grows.trans (stored.mono fun place aims =>
      ⟨names, files, confined.grows.aims.mp aims⟩)
  made {place entry} there missing := by
    cases between : after.get? place with
    | some other => exact confined.made between missing
    | none =>
      obtain ⟨front, own, aims⟩ :=
        makes_store after (getLast?_join directory files) content place entry there between
      exact ⟨names, front, files, Path.components_join directory files ▸ own.components,
        confined.grows.aims.mp aims⟩

end FileTree

/-! ### Names of known cultures -/

namespace Culture

/-- A name is a component of paths by itself, on every system. -/
structure Ordinary (name : String) : Prop where
  named : IsFileName name
  noBackslash : '\\' ∉ name.toList
  noNull : '\x00' ∉ name.toList
  components : (Path.mk name).components = [.normal name]

/-- **A known culture is one component by itself.** -/
theorem ordinary_of_isKnown {name : String} (known : isKnown name = true) : Ordinary name := by
  have named := isFileName_of_isKnown known
  refine ⟨named, ?_, ?_, ?_⟩
  · exact not_mem_of_isKnown known (by decide) (by decide) (by decide)
  · exact not_mem_of_isKnown known (by decide) (by decide) (by decide)
  · have components := Path.components_ofNames (.singleton named)
    rwa [Path.ofNames_singleton] at components

end Culture

/-! ### Paths of catalogs -/

namespace Locale

variable {locale : Locale} {culture other : String}

theorem files_of_language (named : IsFileName culture) : AreFileNames [culture, languageName] :=
  ⟨List.cons_ne_nil _ _, by simp [named, isFileName_languageName]⟩

theorem templatePath_eq (locale : Locale) :
    locale.templatePath = locale.directory.join (Path.ofNames [templateName]).text := by
  rw [Path.ofNames_singleton]
  rfl

theorem languagePath_eq (locale : Locale) (named : IsFileName culture) :
    locale.languagePath culture =
      locale.directory.join (Path.ofNames [culture, languageName]).text := by
  rw [← Path.join_join locale.directory named (.singleton isFileName_languageName),
    Path.ofNames_singleton]
  rfl

/-- **The catalog of a culture is in the directory of the culture**, which is in the locale directory. -/
theorem components_languagePath (locale : Locale) (named : IsFileName culture) :
    (locale.languagePath culture).components =
      locale.directory.components ++ [.normal culture, .normal languageName] := by
  rw [languagePath_eq locale named, Path.components_join _ (files_of_language named)]
  rfl

/-- **Different cultures have different catalogs.** -/
theorem languagePath_apart (locale : Locale) (named : IsFileName culture) (also : IsFileName other)
    (differs : culture ≠ other) :
    (locale.languagePath culture).same (locale.languagePath other) = false := by
  rw [Path.same, decide_eq_false_iff_not, components_languagePath locale named,
    components_languagePath locale also]
  intro same
  have parts := List.append_cancel_left same
  exact differs (Component.normal.inj (List.cons.inj parts).1)

end Locale

/-! ### Builds -/

namespace Locale

variable {locale : Locale} {template : Items}

/-- The cultures of a merge are names of directories, if those that shall get a catalog are. -/
theorem isFileName_of_cultures (named : tree.Named) {configured cultures : List String}
    (good : ∀ culture ∈ configured, IsFileName culture)
    (listed : locale.cultures tree configured = .ok cultures) : ∀ culture ∈ cultures, IsFileName culture := by
  obtain ⟨names, languages, -, members⟩ := mem_cultures listed
  intro culture member
  rcases (members culture).mp member with known | wanted
  · exact (Projection.languages_sorted named languages).2 culture known
  · exact good culture wanted

/-- A merge of such cultures is confined to the locale directory. -/
theorem confined_mergeAll (rooted : tree.Rooted) (confined : Confined locale.directory tree after)
    (named : after.Named) {configured : List String} (good : ∀ culture ∈ configured, IsFileName culture) :
    Confined locale.directory tree (locale.mergeAll configured template after).2 := by
  cases listed : locale.cultures after configured with
  | error error => rwa [mergeAll, listed]
  | ok cultures =>
    rw [mergeAll_of_cultures listed]
    refine holds_mergeEach (Confined locale.directory tree) confined fun now still culture member text => ?_
    have name := isFileName_of_cultures named good listed culture member
    rw [languagePath_eq locale name]
    exact still.store rooted (files_of_language name) (.text text)

end Locale

namespace Project

variable {project : Project} {options : BuildOptions}

/-- **A build with usable settings is confined to its locale directory.** -/
theorem confined_build (usable : project.settings.Usable) (rooted : tree.Rooted) (named : tree.Named)
    (options : BuildOptions) :
    Confined project.locale.directory tree (project.build options tree).2 := by
  have good : ∀ culture ∈ project.settings.languages, IsFileName culture := fun culture member =>
    Culture.isFileName_of_isKnown (usable.languages culture member)
  obtain ⟨scanner, made, -⟩ := exists_scanner usable options.showContext
  rw [build_of_scanner made]
  generalize scanner.scan tree = scan
  have template : Confined project.locale.directory tree
        (project.locale.saveTemplate tree scan.items).2 ∧
      (project.locale.saveTemplate tree scan.items).2.Named := by
    unfold Locale.saveTemplate
    rw [Catalog.save_eq_rewrite, Locale.templatePath_eq]
    exact Catalog.holds_rewrite (fun left => Confined project.locale.directory tree left ∧ left.Named)
      ⟨Confined.refl _ tree, named⟩
      (fun text => ⟨(Confined.refl _ tree).store rooted (.singleton Locale.isFileName_templateName) _,
        named.store _ _⟩) _ _
  unfold buildScanned
  generalize project.locale.saveTemplate tree scan.items = saved at template ⊢
  obtain ⟨outcome, left⟩ := saved
  obtain ⟨confined, still⟩ := template
  cases outcome with
  | error error => exact confined
  | ok changed =>
    dsimp only
    unfold mergeScanned
    split
    · exact Locale.confined_mergeAll rooted confined still good
    · exact confined

end Project

/-! ### Projections -/

namespace Projection

variable {project : Project} {options : ProjectionOptions} {plan : Plan}

/-- **A copy is to be stored below the directory of its culture**, which is in the output. -/
theorem target_of_plan (named : tree.Named) (planned : Projection.plan project options tree = .ok plan)
    {copy : Copy} (member : copy ∈ plan.copies) :
    ∃ names, AreFileNames (copy.culture :: names) ∧
      copy.target = plan.output.join (Path.ofNames (copy.culture :: names)).text := by
  obtain ⟨source, languages, contents⟩ := plan_eq_ok_iff.mp planned
  obtain ⟨absolute, place, there⟩ := source_eq_ok contents.found
  rw [contents.copies] at member
  obtain ⟨culture, inside, made⟩ := List.mem_flatMap.mp member
  obtain ⟨file, listed, rfl⟩ := List.mem_map.mp made
  obtain ⟨names, rfl, files⟩ := names_of_mem_files named absolute there listed
  have good := isFileName_of_plan named planned culture inside
  exact ⟨names, ⟨List.cons_ne_nil _ _, List.forall_mem_cons.mpr ⟨good, files.good⟩⟩,
    Path.join_join plan.output good files⟩

/-- **A projection is confined to its output.** -/
theorem confined_run (rooted : tree.Rooted) (named : tree.Named)
    (planned : Projection.plan project options tree = .ok plan) :
    Confined plan.output tree (run project options tree).2 := by
  unfold run
  rw [planned]
  refine holds_makeCopies (Confined plan.output tree) (Confined.refl _ tree) ?_ _
  intro now confined copy member content
  obtain ⟨names, files, same⟩ := target_of_plan named planned member
  rw [same]
  exact confined.store rooted files content

end Projection

/-! ### Known cultures -/

namespace Culture

/-- **Known cultures lead out of no directory.** A known culture is made of letters and digits of ASCII,
separators and the Kelvin sign, and is one ordinary component of paths. So its catalog is directly in its own
directory in the locale directory, and no other known culture has that catalog. A build whose settings have no
problem is confined to the locale directory. A projection is confined to the output, and stores the copies for
its default culture, which is known, below the directory of that culture. Without links, all that is below a
directory stands in it. -/
theorem known_confined :
    (∀ name, isKnown name = true →
      (∀ c ∈ name.toList, isAlphanumeric c = true ∨ isSeparator c = true ∨ c = '\u212A') ∧
      Ordinary name ∧ ∀ locale : Locale, (locale.languagePath name).components =
        locale.directory.components ++ [.normal name, .normal Locale.languageName]) ∧
    (∀ (locale : Locale) (first second : String), isKnown first = true → isKnown second = true →
      first ≠ second → (locale.languagePath first).same (locale.languagePath second) = false) ∧
    (∀ (project : Project) (options : BuildOptions) (tree : FileTree), tree.Rooted → tree.Named →
      project.settings.problems = [] →
        Confined project.locale.directory tree (project.build options tree).2) ∧
    (∀ (project : Project) (options : ProjectionOptions) (tree : FileTree), tree.Rooted → tree.Named →
      match Projection.plan project options tree with
      | .error _ => (Projection.run project options tree).2 = tree
      | .ok plan => isKnown plan.defaultCulture = true ∧
        (∀ copy ∈ plan.copies, ∃ names, AreFileNames (copy.culture :: names) ∧
          copy.target = plan.output.join (Path.ofNames (copy.culture :: names)).text) ∧
        Confined plan.output tree (Projection.run project options tree).2) ∧
    ∀ (tree : FileTree) (directory : Path) (goal : Place),
      (∀ place target, tree.get? place ≠ some (.link target)) → tree.Below directory goal →
        ∃ place names, tree.Aims directory place ∧ AreFileNames names ∧ goal = place ++ names := by
  refine ⟨fun name known => ?_, fun locale first second known also => ?_,
    fun project options tree rooted named usable => ?_, fun project options tree rooted named => ?_,
    fun tree directory goal unlinked below => below.inside unlinked⟩
  · have ordinary := ordinary_of_isKnown known
    exact ⟨fun c => mem_of_isKnown known, ordinary,
      fun locale => locale.components_languagePath ordinary.named⟩
  · exact locale.languagePath_apart (isFileName_of_isKnown known) (isFileName_of_isKnown also)
  · exact Project.confined_build (Settings.problems_eq_nil_iff.mp usable) rooted named options
  · cases planned : Projection.plan project options tree with
    | error error =>
      unfold Projection.run
      rw [planned]
    | ok plan =>
      obtain ⟨source, languages, contents⟩ := Projection.plan_eq_ok_iff.mp planned
      exact ⟨(Projection.defaultCulture_eq_ok contents.chosen).2,
        fun copy => Projection.target_of_plan named planned, Projection.confined_run rooted named planned⟩

/-- A culture in two spellings, a build, and a projection whose output is spelled with a step up. -/
theorem known_confined_portuguese :
    let source := "[[[Hello]]]"
    let output : Path := ⟨"/src/../src/out"⟩
    (isKnown "pt_BR" = true ∧ isKnown "pt-BR" = true ∧ Ordinary "pt_BR" ∧
      (Locale.sample.languagePath "pt_BR").same (Locale.sample.languagePath "pt-BR") = false) ∧
    (Project.sample.settings.problems = [] ∧ (Project.sampleTree source).Plain ∧
      Confined Project.sample.locale.directory (Project.sampleTree source)
        (Project.sample.build .standard (Project.sampleTree source)).2) ∧
    (Projection.nestedCopied.Plain ∧ isKnown "en" = true ∧
      Confined output Projection.nestedCopied
        (Projection.run (Projection.sampleProject .standard)
          (Projection.forced Projection.detouredOptions) Projection.nestedCopied).2) ∧
    Projection.nestedTree.Below ⟨"/src"⟩ ["src", "a.html"] ∧
      ∃ place names, Projection.nestedTree.Aims ⟨"/src"⟩ place ∧ AreFileNames names ∧
        ["src", "a.html"] = place ++ names := by
  intro source output
  obtain ⟨names, paths, builds, projections, inside⟩ := known_confined
  have first : isKnown "pt_BR" = true := by decide +kernel
  have second : isKnown "pt-BR" = true := by decide +kernel
  have usable : Project.sample.settings.problems = [] := by decide +kernel
  have single : (Project.sampleTree source).Plain :=
    plain_of_entries (by decide +kernel) (by decide +kernel)
  have copied : Projection.nestedCopied.Plain := plain_of_entries (by decide +kernel) (by decide +kernel)
  have nested : Projection.nestedTree.Plain := plain_of_entries (by decide +kernel) (by decide +kernel)
  have projected := projections (Projection.sampleProject .standard)
    (Projection.forced Projection.detouredOptions) Projection.nestedCopied copied.rooted copied.isNamed
  rw [Projection.plan_nestedCopied] at projected
  have below : Projection.nestedTree.Below ⟨"/src"⟩ ["src", "a.html"] := by
    refine ⟨["a.html"], .singleton (by decide), ?_⟩
    have found : Projection.nestedTree.resolve ((Path.mk "/src").join (Path.ofNames ["a.html"]).text) =
        .ok (.present ["src", "a.html"] (.file (.text "[[[Hello]]]") 0)) := by decide +kernel
    exact aims_of_resolve found
  exact ⟨⟨first, second, (names _ first).2.1, paths _ _ _ first second (by decide)⟩,
    ⟨usable, single, builds _ _ _ single.rooted single.isNamed usable⟩,
    ⟨copied, projected.1, projected.2.2⟩, below, inside _ _ _ nested.unlinked below⟩

end Culture

end Localization

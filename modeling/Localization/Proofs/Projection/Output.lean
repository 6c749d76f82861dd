import Localization.Proofs.FileTree.Spellings
import Localization.Proofs.Path
import Localization.Proofs.Projection.Unforced

/-
**Which of its own copies a projection copies.**

A walk leaves out the output if its path is spelled as the path of the source with names behind it.
Then no run sees what an earlier one has stored. Spelled in another way, an output in the source is
a directory like any other.

* `mem_files` — the files to copy, one by one; `processes_iff` — by their places.
* `SpelledBelow` — the output is spelled below the source; `spelledBelow_of_straight`.
* `grows_rerun` — what runs of a projection change, one after the other.
* `secluded_of_spelledBelow` — what they do if the output is spelled below the source (`Secluded`).
* `spares_output_iff` — when a projection copies none of its copies.
* `run_copies_output` — copies that are copied.
-/

namespace Localization

open FileTree

/-! ### Files, one by one -/

namespace FileTree

theorem mem_beginnings {front names : List String} :
    front ∈ beginnings names ↔ front ≠ [] ∧ front <+: names := by
  unfold beginnings
  simp only [List.mem_map, List.mem_range]
  constructor
  · rintro ⟨count, inside, rfl⟩
    refine ⟨fun empty => ?_, List.take_prefix _ _⟩
    have length := congrArg List.length empty
    rw [List.length_take, List.length_nil] at length
    omega
  · rintro ⟨full, begins⟩
    have positive := List.length_pos_iff.mpr full
    have short := begins.length_le
    refine ⟨front.length - 1, by omega, ?_⟩
    rw [Nat.sub_add_cancel positive]
    exact (List.prefix_iff_eq_take.mp begins).symm

/-- Whatever stands below a place is an entry below it. -/
theorem mem_entriesBelow_of_get? {tree : FileTree} {place : Place} {names : List String} {entry : Entry}
    (solid : names ≠ []) (there : tree.get? (place ++ names) = some entry) (start : Path) :
    ⟨names, below start names, entry⟩ ∈ tree.entriesBelow start place := by
  rw [get?, if_neg (by simp [solid])] at there
  refine List.mem_filterMap.mpr ⟨(place ++ names, entry), SortedMap.get?_eq_some.mp there, ?_⟩
  have inside : (place.isPrefixOf (place ++ names) && decide (place ++ names ≠ place)) = true := by
    simp [solid]
  dsimp only
  rw [if_pos inside, List.drop_left]

end FileTree

namespace Projection

variable {tree now after : FileTree} {source output : Path} {place goal : Place} {names : List String}

/-- **The files to copy, one by one**: those below the source that neither are the output, by the
spelling of its path, nor below it. -/
theorem mem_files (plain : tree.Plain) (absolute : source.isAbsolute = true)
    (found : tree.resolve source = .ok (.present place .directory)) (good : AreFileNames names) :
    Path.ofNames names ∈ files tree source output ↔
      (∃ content stamp, tree.get? (place ++ names) = some (.file content stamp)) ∧
        ∀ front, front ≠ [] → front <+: names → (below source front).same output = false := by
  rw [files_eq plain absolute found output, List.mem_mergeSort, List.mem_map]
  constructor
  · rintro ⟨step, member, same⟩
    obtain ⟨inside, content, stamp, entry⟩ := file_of_mem_steps member
    obtain ⟨own, -, there⟩ := mem_entriesBelow plain.isNamed inside
    obtain rfl := Path.ofNames_inj own good same
    rw [entry] at there
    refine ⟨⟨content, stamp, there⟩, fun front full begins => Bool.eq_false_iff.mpr fun left => ?_⟩
    -- What stands at the beginning of the names would have been left out.
    obtain ⟨other, stands⟩ : ∃ other, tree.get? (place ++ front) = some other := by
      obtain ⟨rest, whole⟩ := begins
      rw [← whole, ← List.append_assoc] at there
      by_cases last : rest = []
      · rw [last, List.append_nil] at there
        exact ⟨_, there⟩
      · exact ⟨_, plain.rooted.above last there⟩
    have met := mem_entriesBelow_of_get? full stands source
    have kept := (Bool.and_eq_true_iff.mp (List.mem_filter.mp member).2).2
    have apart := List.all_eq_true.mp kept front (mem_beginnings.mpr ⟨full, begins⟩)
    rw [Bool.not_eq_true', List.contains_eq_mem, decide_eq_false_iff_not] at apart
    exact apart (List.mem_map.mpr ⟨_, List.mem_filter.mpr ⟨met, left⟩, rfl⟩)
  · rintro ⟨⟨content, stamp, there⟩, apart⟩
    have met := mem_entriesBelow_of_get? good.solid there source
    refine ⟨_, List.mem_filter.mpr ⟨met, Bool.and_eq_true_iff.mpr ⟨rfl, ?_⟩⟩, rfl⟩
    refine List.all_eq_true.mpr fun front member => ?_
    obtain ⟨full, begins⟩ := mem_beginnings.mp member
    rw [Bool.not_eq_true', List.contains_eq_mem, decide_eq_false_iff_not]
    intro left
    obtain ⟨step, inside, rfl⟩ := List.mem_map.mp left
    obtain ⟨known, same⟩ := List.mem_filter.mp inside
    obtain ⟨-, path, -⟩ := mem_entriesBelow plain.isNamed known
    rw [path, apart step.names full begins] at same
    cases same

/-! ### Spellings of the output -/

/-- A file stands at the place. -/
def IsFileAt (tree : FileTree) (goal : Place) : Prop :=
  ∃ content stamp, tree.get? goal = some (.file content stamp)

/-- The file at a place is copied: its names below the place of the source are listed. -/
def Processes (tree : FileTree) (source output : Path) (place goal : Place) : Prop :=
  ∃ names, AreFileNames names ∧ Path.ofNames names ∈ files tree source output ∧ goal = place ++ names

/-- The path of the output is spelled as the path of the source with names behind it. -/
structure SpelledBelow (source output : Path) (names : List String) : Prop where
  solid : names ≠ []
  components : output.components = source.components ++ names.map .normal

instance (source output : Path) (names : List String) : Decidable (SpelledBelow source output names) :=
  decidable_of_iff (names ≠ [] ∧ output.components = source.components ++ names.map .normal)
    ⟨fun ⟨solid, components⟩ => ⟨solid, components⟩, fun spelled => ⟨spelled.solid, spelled.components⟩⟩

/-- **The files to copy, by their places**: those in the source that are not in an output that is
spelled below the source. -/
theorem processes_iff (plain : tree.Plain) (absolute : source.isAbsolute = true)
    (found : tree.resolve source = .ok (.present place .directory)) (closed : output.isAbsolute = true)
    (aims : tree.Aims output (place ++ names)) :
    Processes tree source output place goal ↔
      IsFileAt tree goal ∧ place <+: goal ∧ (SpelledBelow source output names → ¬ place ++ names <+: goal) := by
  constructor
  · rintro ⟨inner, good, listed, rfl⟩
    obtain ⟨file, apart⟩ := (mem_files plain absolute found good).mp listed
    refine ⟨file, List.prefix_append _ _, fun spelled inside => ?_⟩
    have begins : names <+: inner := (List.prefix_append_right_inj place).mp inside
    have named : AreFileNames names :=
      ⟨spelled.solid, fun name member => good.good name (begins.subset member)⟩
    have differs := apart names spelled.solid begins
    rw [Path.below_eq_join source named, Path.same, Path.components_join source named,
      spelled.components, decide_eq_true rfl] at differs
    cases differs
  · rintro ⟨⟨content, stamp, there⟩, ⟨inner, rfl⟩, apart⟩
    have solid : inner ≠ [] := by
      rintro rfl
      have stands := (leads_of_resolve found).get?.1
      rw [List.append_nil] at there
      cases there.symm.trans stands
    have good : AreFileNames inner :=
      ⟨solid, fun name member => plain.named there name (List.mem_append_right place member)⟩
    refine ⟨inner, good, (mem_files plain absolute found good).mpr ⟨⟨content, stamp, there⟩, ?_⟩, rfl⟩
    refine fun front full begins => Bool.eq_false_iff.mpr fun same => ?_
    have named : AreFileNames front := ⟨full, fun name member => good.good name (begins.subset member)⟩
    rw [Path.below_eq_join source named] at same
    have components := of_decide_eq_true same
    -- What is left out is the output, which aims at one place only.
    have again := aims.of_same plain.unlinked closed (Path.isAbsolute_join absolute _) components.symm
    obtain ⟨middle, start, equal, -⟩ := aims_join plain.unlinked named again
    obtain rfl := (leads_solidParts found).aims.unique start
    obtain rfl := List.append_cancel_left equal
    rw [Path.components_join source named] at components
    exact apart ⟨full, components.symm⟩ ((List.prefix_append_right_inj place).mpr begins)

/-- **An output in the source is spelled below it if neither path goes up.** -/
theorem spelledBelow_of_straight (plain : tree.Plain) (absolute : source.isAbsolute = true)
    (found : tree.resolve source = .ok (.present place .directory)) (closed : output.isAbsolute = true)
    (aims : tree.Aims output (place ++ names)) (solid : names ≠ [])
    (straight : .parent ∉ source.components) (level : .parent ∉ output.components) :
    SpelledBelow source output names := by
  have own := Aims.components_eq plain.unlinked absolute straight (aims_of_resolve found)
  have other := aims.components_eq plain.unlinked closed level
  refine ⟨solid, ?_⟩
  rw [other, own, List.map_append]
  rfl

/-! ### Runs, one after the other -/

variable {project : Project} {options : ProjectionOptions} {report : ProjectionReport}
  {spots : Place → Prop}

/-- The output has an absolute path. -/
theorem isAbsolute_output (absolute : source.isAbsolute = true)
    (chosen : Projection.output tree options source = .ok output) : output.isAbsolute = true := by
  unfold Projection.output at chosen
  split at chosen
  · unfold Projection.absolute at chosen
    split at chosen
    · cases chosen
    · cases chosen
      exact isAbsolute_absolute _ (isAbsolute_pathOf _)
  · cases chosen
    exact Path.isAbsolute_join absolute outputName

theorem absolute_of_grows (grows : Grows spots tree now) (path : Path) :
    Projection.absolute now path = Projection.absolute tree path := by
  unfold Projection.absolute
  rw [grows.keeps.workingDirectory]

theorem output_of_grows (grows : Grows spots tree now) (source : Path) :
    Projection.output now options source = Projection.output tree options source := by
  unfold Projection.output
  simp only [absolute_of_grows grows]

/-- The directory to project goes on being there when files are stored. -/
theorem source_of_grows (grows : Grows spots tree now)
    (found : Projection.source tree options = .ok source) :
    Projection.source now options = .ok source := by
  obtain ⟨-, place, there⟩ := source_eq_ok found
  have still : now.isDirectory source = true := by
    rw [isDirectory, find_eq_ok.mpr (grows.keeps.resolve_directory there)]
  unfold Projection.source at found ⊢
  simp only [bind, Except.bind] at found ⊢
  rw [absolute_of_grows grows]
  split at found
  · cases found
  · rename_i path made
    split at found
    · cases found
      exact if_pos still
    · cases found

/-- The cultures of a plan are names of directories. -/
theorem isFileName_of_plan (named : tree.Named) {plan : Plan}
    (planned : Projection.plan project options tree = .ok plan) :
    ∀ culture ∈ plan.cultures, IsFileName culture := by
  obtain ⟨_, languages, contents⟩ := plan_eq_ok_iff.mp planned
  obtain ⟨rest, all, sublist, -, -⟩ :=
    addCultures_spec [plan.defaultCulture] languages (List.pairwise_singleton _ _)
  rw [contents.cultures, all]
  have known := (defaultCulture_eq_ok contents.chosen).2
  exact List.forall_mem_cons.mpr ⟨Culture.isFileName_of_isKnown known, fun culture member =>
    (languages_sorted named contents.listed).2 culture (sublist.subset member)⟩

/-- Copies are stored below the place of the output. -/
theorem below_of_targeted (plain : tree.Plain) (absolute : source.isAbsolute = true)
    (found : tree.resolve source = .ok (.present place .directory)) (aims : tree.Aims output goal)
    {cultures : List String} (good : ∀ culture ∈ cultures, IsFileName culture) {spot : Place}
    (targeted : Targeted tree (copies source output cultures (files tree source output)) spot) :
    goal <+: spot := by
  obtain ⟨copy, member, reaches⟩ := targeted
  obtain ⟨culture, inside, made⟩ := List.mem_flatMap.mp member
  obtain ⟨file, listed, rfl⟩ := List.mem_map.mp made
  obtain ⟨names, rfl, own⟩ := names_of_mem_files plain.isNamed absolute found listed
  obtain ⟨middle, start, rfl⟩ := place_of_target plain.unlinked (good culture inside) own reaches
  obtain rfl := ((aims_iff_solidParts plain.unlinked).mp aims).unique start
  exact List.prefix_append _ _

/-- A tree of files and directories stays one when copies are made. -/
theorem plain_makeCopies (plain : tree.Plain) (translator : Translator) (copies : List Copy) :
    (makeCopies translator tree copies).2.Plain :=
  holds_makeCopies Plain plain (fun _ good copy _ content => good.store copy.target content) translator

/-- A projection stores a copy at the place. -/
def Stores (project : Project) (options : ProjectionOptions) (tree : FileTree) (goal : Place) : Prop :=
  ∃ plan, Projection.plan project options tree = .ok plan ∧ Targeted tree plan.copies goal

/-- **A projection stores its copies below the place of the output.** -/
theorem below_of_stores (plain : tree.Plain) (found : Projection.source tree options = .ok source)
    (chosen : Projection.output tree options source = .ok output) (aims : tree.Aims output goal)
    {spot : Place} (stores : Stores project options tree spot) : goal <+: spot := by
  obtain ⟨plan, planned, targeted⟩ := stores
  obtain ⟨own, languages, contents⟩ := plan_eq_ok_iff.mp planned
  cases found.symm.trans contents.found
  cases chosen.symm.trans contents.aimed
  obtain ⟨absolute, place, there⟩ := source_eq_ok found
  rw [contents.copies] at targeted
  exact below_of_targeted plain absolute there aims (isFileName_of_plan plain.isNamed planned) targeted

/-- A run changes files only where it stores copies. -/
theorem grows_run (plain : tree.Plain) (project : Project) (options : ProjectionOptions) :
    Grows (Stores project options tree) tree (run project options tree).2 := by
  unfold run
  cases planned : Projection.plan project options tree with
  | error error => exact Grows.refl _ tree
  | ok plan =>
    exact (grows_makeCopies plain.rooted _ plan.copies).mono fun _ targeted => ⟨plan, planned, targeted⟩

theorem plain_run (plain : tree.Plain) (project : Project) (options : ProjectionOptions) :
    (run project options tree).2.Plain := by
  unfold run
  split
  · exact plain
  · exact plain_makeCopies plain _ _

/-- The tree that projections leave, one after the other, each with or without force. -/
def rerun (project : Project) (options : ProjectionOptions) (tree : FileTree) (forces : List Bool) :
    FileTree :=
  forces.foldl (fun now force => (run project { options with force := force } now).2) tree

theorem rerun_cons (project : Project) (options : ProjectionOptions) (tree : FileTree) (force : Bool)
    (rest : List Bool) :
    rerun project options tree (force :: rest) =
      rerun project options (run project { options with force := force } tree).2 rest := by
  rw [rerun, List.foldl_cons, rerun]

/-- **Runs change files below the output only**, however many they are. -/
theorem grows_rerun (plain : tree.Plain) (project : Project)
    (found : Projection.source tree options = .ok source)
    (chosen : Projection.output tree options source = .ok output) (aims : tree.Aims output goal)
    (forces : List Bool) :
    Grows (goal <+: ·) tree (rerun project options tree forces) ∧
      (rerun project options tree forces).Plain := by
  induction forces generalizing tree with
  | nil => exact ⟨Grows.refl _ tree, plain⟩
  | cons force rest ih =>
    have also : Projection.source tree { options with force := force } = .ok source := found
    have again : Projection.output tree { options with force := force } source = .ok output := chosen
    have first : Grows (goal <+: ·) tree (run project { options with force := force } tree).2 :=
      (grows_run plain project _).mono fun _ stores => below_of_stores plain also again aims stores
    obtain ⟨others, last⟩ := ih (plain_run plain project _) (source_of_grows first found)
      ((output_of_grows first source).trans chosen) (first.aims.mpr aims)
    rw [rerun_cons]
    exact ⟨first.trans others, last⟩

/-! ### Outputs that are spelled below the source -/

/-- The files to copy are those at the places, in order. -/
theorem files_ext (plain : tree.Plain) (also : now.Plain) (absolute : source.isAbsolute = true)
    (found : tree.resolve source = .ok (.present place .directory))
    (again : now.resolve source = .ok (.present place .directory))
    (same : ∀ goal, Processes now source output place goal ↔ Processes tree source output place goal) :
    files now source output = files tree source output := by
  have within {one two : FileTree} (good : one.Plain)
      (there : one.resolve source = .ok (.present place .directory))
      (goes : ∀ goal, Processes one source output place goal → Processes two source output place goal)
      {file : Path} (member : file ∈ files one source output) : file ∈ files two source output := by
    obtain ⟨names, rfl, named⟩ := names_of_mem_files good.isNamed absolute there member
    obtain ⟨others, -, listed, equal⟩ := goes _ ⟨names, named, member, rfl⟩
    exact List.append_cancel_left equal ▸ listed
  have members (file : Path) : file ∈ files now source output ↔ file ∈ files tree source output :=
    ⟨within also again fun goal => (same goal).mp, within plain found fun goal => (same goal).mpr⟩
  have perm : (files now source output).Perm (files tree source output) :=
    (List.perm_ext_iff_of_nodup (nodup_files also absolute again output)
      (nodup_files plain absolute found output)).mpr members
  -- Both lists are in order, and in this order no file is level with another one.
  refine perm.eq_of_pairwise (fun first second here there before behind => ?_)
    (Path.pairwise_mergeSort _) (Path.pairwise_mergeSort _)
  obtain ⟨names, rfl, good⟩ := names_of_mem_files also.isNamed absolute again here
  obtain ⟨others, rfl, more⟩ := names_of_mem_files plain.isNamed absolute found there
  have equal := Path.components_eq_of_not_before before behind
  rw [Path.components_ofNames good, Path.components_ofNames more] at equal
  rw [(List.map_inj_right fun _ _ => Component.normal.inj).mp equal]

/-- **Files below an output that is spelled below the source are not copied**, so no run changes which
files are. -/
theorem files_of_grows (plain : tree.Plain) (also : now.Plain) (absolute : source.isAbsolute = true)
    (found : tree.resolve source = .ok (.present place .directory)) (closed : output.isAbsolute = true)
    (aims : tree.Aims output (place ++ names)) (spelled : SpelledBelow source output names)
    (grows : Grows (place ++ names <+: ·) tree now) :
    files now source output = files tree source output := by
  have again := grows.keeps.resolve_directory found
  refine files_ext plain also absolute found again fun goal => ?_
  rw [processes_iff also absolute again closed (grows.aims.mpr aims),
    processes_iff plain absolute found closed aims]
  have elsewhere (apart : ¬ place ++ names <+: goal) : IsFileAt now goal ↔ IsFileAt tree goal := by
    unfold IsFileAt
    simp only [grows.elsewhere apart]
  constructor
  · rintro ⟨file, inside, apart⟩
    exact ⟨(elsewhere (apart spelled)).mp file, inside, apart⟩
  · rintro ⟨file, inside, apart⟩
    exact ⟨(elsewhere (apart spelled)).mpr file, inside, apart⟩

/-- With force, replacing files is allowed. -/
def forced (options : ProjectionOptions) : ProjectionOptions := { options with force := true }

/-- With force, a plan depends on the languages and on the files to copy only. -/
theorem plan_of_grows (grows : Grows spots tree now) (found : Projection.source tree options = .ok source)
    (chosen : Projection.output tree options source = .ok output)
    (languages : project.locale.languages now = project.locale.languages tree)
    (same : files now source output = files tree source output) (plan : Plan) :
    Projection.plan project (forced options) now = .ok plan ↔
      Projection.plan project (forced options) tree = .ok plan := by
  have again : Projection.source now options = .ok source := source_of_grows grows found
  have still : Projection.output now options source = .ok output :=
    (output_of_grows grows source).trans chosen
  rw [plan_eq_ok_iff, plan_eq_ok_iff]
  constructor
  · rintro ⟨own, listed, contents⟩
    cases again.symm.trans contents.found
    cases still.symm.trans contents.aimed
    exact ⟨source, listed, contents.chosen, found, chosen, languages ▸ contents.listed,
      contents.cultures, same ▸ contents.copies, nofun⟩
  · rintro ⟨own, listed, contents⟩
    cases found.symm.trans contents.found
    cases chosen.symm.trans contents.aimed
    exact ⟨source, listed, contents.chosen, again, still, languages.symm ▸ contents.listed,
      contents.cultures, same.symm ▸ contents.copies, nofun⟩

/-- What is planned without force is planned with force. -/
theorem plan_forced {plan : Plan} (planned : Projection.plan project options tree = .ok plan) :
    Projection.plan project (forced options) tree = .ok plan := by
  obtain ⟨source, languages, contents⟩ := plan_eq_ok_iff.mp planned
  exact plan_eq_ok_iff.mpr ⟨source, languages, contents.chosen, contents.found, contents.aimed,
    contents.listed, contents.cultures, contents.copies, nofun⟩

/-- Wherever a projection without failures stores a copy, a file stands afterwards. -/
theorem isFileAt_of_stores (plain : tree.Plain)
    (ran : run project options tree = (.ok (.ok report), after)) (success : report.isSuccess = true)
    (stores : Stores project options tree goal) : IsFileAt after goal := by
  obtain ⟨plan, planned, -, made⟩ := makeCopies_of_run ran success
  obtain ⟨same, again, copy, member, aims⟩ := stores
  cases planned.symm.trans again
  have ready := reached_start project plan.defaultCulture tree
  obtain ⟨⟨place, content, stamp, reaches, there⟩, -⟩ :=
    stored_of_makeCopies plain.rooted ready made member
  exact ⟨content, stamp, aims.unique reaches ▸ there⟩

/-- A projection that stores copies where files stand makes no new file. -/
theorem isFileAt_run_iff (plain : tree.Plain)
    (known : ∀ goal, Stores project options tree goal → IsFileAt tree goal) :
    IsFileAt (run project options tree).2 goal ↔ IsFileAt tree goal := by
  have grows := grows_run plain project options
  constructor
  · rintro ⟨content, stamp, there⟩
    refine Classical.byContradiction fun new => new ⟨content, stamp, ?_⟩
    exact (grows.elsewhere fun spot => new (known goal spot)).mp there
  · rintro ⟨content, stamp, there⟩
    exact grows.files there

/-- What projections do, one after the other, if none copies what another one has stored. -/
structure Secluded (project : Project) (options : ProjectionOptions) (tree : FileTree)
    (source output : Path) (place : Place) (names : List String) : Prop where
  /-- None of them copies a file below the output. -/
  spared : ∀ forces goal, Processes (rerun project options tree forces) source output place goal →
    ¬ place ++ names <+: goal
  /-- All of them copy the same files. -/
  files : ∀ forces, files (rerun project options tree forces) source output = files tree source output
  /-- All of them store copies at the same places, if they find the same languages. -/
  stores : ∀ forces,
    project.locale.languages (rerun project options tree forces) = project.locale.languages tree →
      ∀ goal, Stores project (forced options) (rerun project options tree forces) goal ↔
        Stores project (forced options) tree goal
  /-- The second one makes no new file. -/
  stable : ∀ report after, run project options tree = (.ok (.ok report), after) →
    report.isSuccess = true → project.locale.languages after = project.locale.languages tree →
      ∀ goal, IsFileAt (run project (forced options) after).2 goal ↔ IsFileAt after goal

/-- **An output that is spelled below the source is secluded**: no run sees what others have stored. -/
theorem secluded_of_spelledBelow (plain : tree.Plain) (project : Project)
    (found : Projection.source tree options = .ok source)
    (chosen : Projection.output tree options source = .ok output)
    (there : tree.resolve source = .ok (.present place .directory))
    (aims : tree.Aims output (place ++ names)) (spelled : SpelledBelow source output names) :
    Secluded project options tree source output place names := by
  obtain ⟨absolute, -⟩ := source_eq_ok found
  have closed := isAbsolute_output absolute chosen
  have later (forces : List Bool) := grows_rerun plain project found chosen aims forces
  have same (forces : List Bool) :
      files (rerun project options tree forces) source output = files tree source output :=
    files_of_grows plain (later forces).2 absolute there closed aims spelled (later forces).1
  have stores (forces : List Bool) (languages : project.locale.languages
      (rerun project options tree forces) = project.locale.languages tree) (goal : Place) :
      Stores project (forced options) (rerun project options tree forces) goal ↔
        Stores project (forced options) tree goal := by
    unfold Stores
    simp only [plan_of_grows (later forces).1 found chosen languages (same forces),
      targeted_iff (later forces).1]
  refine ⟨fun forces goal processed => ?_, same, stores, fun report after ran success languages goal => ?_⟩
  · obtain ⟨grows, good⟩ := later forces
    have again := grows.keeps.resolve_directory there
    exact ((processes_iff good absolute again closed (grows.aims.mpr aims)).mp processed).2.2 spelled
  · have left : rerun project options tree [options.force] = after := congrArg Prod.snd ran
    have good := (later [options.force]).2
    have known := stores [options.force]
    rw [left] at good known
    refine isFileAt_run_iff good fun spot again => isFileAt_of_stores plain ran success ?_
    obtain ⟨plan, planned, -⟩ := makeCopies_of_run ran success
    obtain ⟨same, forcedly, targeted⟩ := (known languages spot).mp again
    cases (plan_forced planned).symm.trans forcedly
    exact ⟨plan, planned, targeted⟩

/-! ### Copies of copies -/

/-- An output that is not chosen is spelled below the source. -/
theorem spelledBelow_of_default (plain : tree.Plain)
    (found : tree.resolve source = .ok (.present place .directory))
    (aims : tree.Aims (source.join outputName) (place ++ names)) :
    SpelledBelow source (source.join outputName) names := by
  have good : AreFileNames [outputName] := .singleton (by decide)
  rw [show outputName = (Path.ofNames [outputName]).text by rw [Path.ofNames_singleton]] at aims ⊢
  obtain ⟨middle, start, equal, -⟩ := aims_join plain.unlinked good aims
  obtain rfl := (leads_solidParts found).aims.unique start
  obtain rfl := List.append_cancel_left equal
  exact ⟨good.solid, Path.components_join source good⟩

/-- **When a projection copies none of its own copies.** It leaves out an output in its source exactly
if the output is spelled below the source, or holds no file. It always is where neither path goes up
and where no output is chosen. Then later runs copy the same files to the same places. Otherwise the
next run copies every copy. -/
theorem spares_output_iff (plain : tree.Plain) (project : Project)
    (found : Projection.source tree options = .ok source)
    (chosen : Projection.output tree options source = .ok output)
    (there : tree.resolve source = .ok (.present place .directory))
    (aims : tree.Aims output (place ++ names)) :
    ((∀ goal, Processes tree source output place goal → ¬ place ++ names <+: goal) ↔
      SpelledBelow source output names ∨ ∀ goal, place ++ names <+: goal → ¬ IsFileAt tree goal) ∧
    (names ≠ [] → .parent ∉ source.components → .parent ∉ output.components →
      SpelledBelow source output names) ∧
    (options.output = none → SpelledBelow source output names) ∧
    (SpelledBelow source output names → Secluded project options tree source output place names) ∧
    (¬ SpelledBelow source output names → ∀ report after,
      run project options tree = (.ok (.ok report), after) → report.isSuccess = true →
        ∀ goal, Stores project options tree goal → Processes after source output place goal) := by
  obtain ⟨absolute, -⟩ := source_eq_ok found
  have closed := isAbsolute_output absolute chosen
  refine ⟨⟨fun spared => ?_, fun either goal processed inside => ?_⟩, ?_, ?_, ?_, ?_⟩
  · refine Classical.or_iff_not_imp_left.mpr fun detour goal inside file => spared goal ?_ inside
    exact (processes_iff plain absolute there closed aims).mpr
      ⟨file, (List.prefix_append _ _).trans inside, fun spelled => absurd spelled detour⟩
  · obtain ⟨file, -, apart⟩ := (processes_iff plain absolute there closed aims).mp processed
    rcases either with spelled | none
    · exact apart spelled inside
    · exact none goal inside file
  · exact spelledBelow_of_straight plain absolute there closed aims
  · intro default
    unfold Projection.output at chosen
    rw [default] at chosen
    cases chosen
    exact spelledBelow_of_default plain there aims
  · exact secluded_of_spelledBelow plain project found chosen there aims
  · intro detour report after ran success goal stores
    have left : (run project options tree).2 = after := congrArg Prod.snd ran
    have grows := grows_run plain project options
    have good := plain_run plain project options
    rw [left] at grows good
    have file := isFileAt_of_stores plain ran success stores
    have inside := (List.prefix_append place names).trans (below_of_stores plain found chosen aims stores)
    exact (processes_iff good absolute (grows.keeps.resolve_directory there) closed
      (grows.aims.mpr aims)).mpr ⟨file, inside, fun spelled => absurd spelled detour⟩

/-- A source with one file. -/
def nestedTree : FileTree :=
  ⟨.ofList [(["src"], .directory), (["src", "a.html"], .file (.text "[[[Hello]]]") 0)], [], 1⟩

/-- The copies go to a directory in the source. -/
def nestedOptions (output : String) : ProjectionOptions := ⟨⟨"src"⟩, some "en", some ⟨output⟩, false⟩

/-- Dots make no difference to how the output is spelled. -/
theorem spares_output_iff_dots :
    let options := nestedOptions "./src/./out"
    nestedTree.Plain ∧ Projection.source nestedTree options = .ok ⟨"/src"⟩ ∧
      Projection.output nestedTree options ⟨"/src"⟩ = .ok ⟨"/src/out"⟩ ∧
      nestedTree.resolve ⟨"/src"⟩ = .ok (.present ["src"] .directory) ∧
      nestedTree.Aims ⟨"/src/out"⟩ ["src", "out"] ∧
      SpelledBelow ⟨"/src"⟩ ⟨"/src/out"⟩ ["out"] ∧
      Secluded (sampleProject .standard) options nestedTree ⟨"/src"⟩ ⟨"/src/out"⟩ ["src"] ["out"] := by
  intro options
  have plain : nestedTree.Plain := plain_of_entries (by decide +kernel) (by decide +kernel)
  have found : Projection.source nestedTree options = .ok ⟨"/src"⟩ := by decide +kernel
  have chosen : Projection.output nestedTree options ⟨"/src"⟩ = .ok ⟨"/src/out"⟩ := by decide +kernel
  have there : nestedTree.resolve ⟨"/src"⟩ = .ok (.present ["src"] .directory) := by decide +kernel
  have absent : nestedTree.resolve ⟨"/src/out"⟩ = .ok (.absent ["src", "out"]) := by decide +kernel
  have aims := aims_of_resolve absent
  obtain ⟨-, straight, -, secluded, -⟩ :=
    spares_output_iff plain (sampleProject .standard) found chosen there aims
  have spelled := straight (by decide) (by decide +kernel) (by decide +kernel)
  exact ⟨plain, found, chosen, there, aims, spelled, secluded spelled⟩

/-- The source with the copy of its file. -/
def nestedCopied : FileTree :=
  ⟨.ofList [(["src"], .directory), (["src", "a.html"], .file (.text "[[[Hello]]]") 0),
    (["src", "out"], .directory), (["src", "out", "en"], .directory),
    (["src", "out", "en", "a.html"], .file (.text "Hello") 1)], [], 2⟩

/-- The path of the output goes up, and down into the source again. -/
def detouredOptions : ProjectionOptions := nestedOptions "/src/../src/out"

/-- Where the output is spelled with a step up, the copy is a file to copy. -/
theorem plan_nestedCopied :
    Projection.plan (sampleProject .standard) (forced detouredOptions) nestedCopied =
      .ok ⟨"en", ⟨"/src/../src/out"⟩, ["en"],
        [⟨"en", ⟨"/src/a.html"⟩, ⟨"/src/../src/out/en/a.html"⟩⟩,
          ⟨"en", ⟨"/src/out/en/a.html"⟩, ⟨"/src/../src/out/en/out/en/a.html"⟩⟩]⟩ := by
  have plain : nestedCopied.Plain := plain_of_entries (by decide +kernel) (by decide +kernel)
  have there : nestedCopied.resolve ⟨"/src"⟩ = .ok (.present ["src"] .directory) := by decide +kernel
  have walked : ((steps nestedCopied ⟨"/src"⟩ ⟨"/src/../src/out"⟩ ["src"]).map fun step =>
      Path.ofNames step.names) = [⟨"a.html"⟩, ⟨"out/en/a.html"⟩] := by decide +kernel
  have files : files nestedCopied ⟨"/src"⟩ ⟨"/src/../src/out"⟩ = [⟨"a.html"⟩, ⟨"out/en/a.html"⟩] := by
    rw [files_eq plain (by decide) there, walked]
    exact List.mergeSort_of_pairwise (by decide +kernel)
  have chosen : defaultCulture (forced detouredOptions) = .ok "en" := by decide +kernel
  have found : Projection.source nestedCopied (forced detouredOptions) = .ok ⟨"/src"⟩ := by
    decide +kernel
  have aimed : Projection.output nestedCopied (forced detouredOptions) ⟨"/src"⟩ =
      .ok ⟨"/src/../src/out"⟩ := by decide +kernel
  have listed : (sampleProject .standard).locale.languages nestedCopied = .ok [] := by decide +kernel
  refine plan_eq_ok_iff.mpr ⟨⟨"/src"⟩, [], chosen, found, aimed, listed, rfl, ?_, nofun⟩
  dsimp only
  rw [files]
  rfl

/-- **An output in the source that is spelled with a step up is copied**: a second run copies the copy
that the first one has stored. -/
theorem run_copies_output :
    nestedTree.Plain ∧ nestedTree.Aims ⟨"/src/../src/out"⟩ ["src", "out"] ∧
      run (sampleProject .standard) detouredOptions nestedTree =
        (.ok (.ok ⟨⟨"/src/../src/out"⟩, ["en"], 1, []⟩), nestedCopied) ∧
      (run (sampleProject .standard) (forced detouredOptions) nestedCopied).1 =
        .ok (.ok ⟨⟨"/src/../src/out"⟩, ["en"], 2, []⟩) ∧
      nestedCopied.get? ["src", "out", "en", "out", "en", "a.html"] = none ∧
      (run (sampleProject .standard) (forced detouredOptions) nestedCopied).2.get?
        ["src", "out", "en", "out", "en", "a.html"] = some (.file (.text "Hello") 3) := by
  have absent : nestedTree.resolve ⟨"/src/../src/out"⟩ = .ok (.absent ["src", "out"]) := by
    decide +kernel
  have twice : (fun turn => (turn.1, turn.2.get? ["src", "out", "en", "out", "en", "a.html"]))
      (run (sampleProject .standard) (forced detouredOptions) nestedCopied) =
        (.ok (.ok ⟨⟨"/src/../src/out"⟩, ["en"], 2, []⟩), some (.file (.text "Hello") 3)) := by
    unfold run
    rw [plan_nestedCopied]
    decide +kernel
  obtain ⟨result, copied⟩ := Prod.mk.inj twice
  refine ⟨plain_of_entries ?_ ?_, aims_of_resolve absent, ?_, result, ?_, copied⟩ <;> decide +kernel

end Projection

end Localization

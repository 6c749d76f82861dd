import Localization.Proofs.Culture
import Localization.Proofs.FileTree.Joined
import Localization.Proofs.Languages
import Localization.Proofs.Projection
import Mathlib.Data.List.Basic

/-
**The copies that a projection plans.**

* `Culture.isFileName_of_isKnown` — a known culture is the name of a directory.
* `addCultures_spec` — the cultures of a projection: each once, in whatever spelling.
* `files_eq`, `files_perm` — the files to copy are known by their names below the source.
* `targets_apart` — no two copies are stored at one place.
-/

namespace Localization

open FileTree Text

/-! ### Names of cultures -/

/-- **A known culture is the name of a directory.** -/
theorem Culture.isFileName_of_isKnown {name : String} (known : isKnown name = true) :
    IsFileName name := by
  have differs {other : String} (unknown : isKnown other = false) : name ≠ other := by
    rintro rfl
    rw [unknown] at known
    cases known
  have slash : '/' ∉ name.toList :=
    not_mem_of_isKnown known (by decide) (by decide) (by decide)
  exact ⟨differs (by decide), slash, differs (by decide), differs (by decide)⟩

namespace Projection

/-! ### Cultures -/

/-- Two names are no spellings of one culture. -/
def Apart (first second : String) : Prop := Culture.normalize first ≠ Culture.normalize second

/-- **The cultures with others that are no other spellings of them**, in the order of the others. -/
theorem addCultures_spec (known languages : List String) (apart : known.Pairwise Apart) :
    ∃ rest, addCultures known languages = known ++ rest ∧ rest.Sublist languages ∧
      (known ++ rest).Pairwise Apart ∧
      ∀ language ∈ languages, ∃ culture ∈ known ++ rest,
        Culture.normalize culture = Culture.normalize language := by
  induction languages generalizing known with
  | nil => exact ⟨[], (List.append_nil known).symm, .slnil, by rwa [List.append_nil], nofun⟩
  | cons language others ih =>
    rw [addCultures]
    by_cases there : (known.any fun other => Culture.normalize other = Culture.normalize language) = true
    · rw [if_pos there]
      obtain ⟨rest, same, sublist, pairwise, covered⟩ := ih known apart
      refine ⟨rest, same, sublist.cons language, pairwise, List.forall_mem_cons.mpr ⟨?_, covered⟩⟩
      obtain ⟨other, inside, equal⟩ := List.any_eq_true.mp there
      exact ⟨other, List.mem_append_left rest inside, of_decide_eq_true equal⟩
    · rw [if_neg there]
      have fresh : (known ++ [language]).Pairwise Apart := by
        refine List.pairwise_append.mpr ⟨apart, List.pairwise_singleton _ _, ?_⟩
        intro other inside culture member equal
        rw [List.mem_singleton.mp member] at equal
        exact there (List.any_eq_true.mpr ⟨other, inside, decide_eq_true equal⟩)
      obtain ⟨rest, same, sublist, pairwise, covered⟩ := ih (known ++ [language]) fresh
      rw [List.append_assoc, List.singleton_append] at same pairwise
      rw [List.append_assoc, List.singleton_append] at covered
      refine ⟨language :: rest, same, sublist.cons_cons language, pairwise,
        List.forall_mem_cons.mpr ⟨⟨language, ?_, rfl⟩, covered⟩⟩
      exact List.mem_append_right known List.mem_cons_self

/-! ### Absolute paths -/

theorem isAbsolute_extend {base : Path} (absolute : base.isAbsolute = true)
    (components : List Component) : (base.extend components).isAbsolute = true := by
  induction components generalizing base with
  | nil => exact absolute
  | cons component rest ih => exact ih (Path.isAbsolute_join absolute component.text)

theorem isAbsolute_absolute (path : Path) {directory : Path} (absolute : directory.isAbsolute = true) :
    (path.absolute directory).isAbsolute = true := by
  have rooted (own : path.isAbsolute = true) :
      ((Path.mk "").extend path.components).isAbsolute = true := by
    have components : ∃ rest, path.components = .root :: rest := by
      unfold Path.components Path.start
      cases parts : pieces Path.isSlash path.text.toList with
      | nil => exact absurd parts (pieces_ne_nil _ _)
      | cons first rest =>
        dsimp only
        rw [if_pos own]
        exact ⟨_, rfl⟩
    obtain ⟨rest, same⟩ := components
    have root : (Path.mk "/").isAbsolute = true := by decide
    rw [same]
    exact isAbsolute_extend root rest
  have closed {base : Path} (good : base.isAbsolute = true) {slash : Prop} [Decidable slash] :
      (if slash then base.join "" else base).isAbsolute = true := by
    split
    · exact Path.isAbsolute_join good ""
    · exact good
  unfold Path.absolute
  refine closed ?_
  split
  · rename_i own
    split
    · exact isAbsolute_extend (by decide) _
    · exact rooted own
  · exact isAbsolute_extend absolute _

theorem isAbsolute_pathOf (place : Place) : (pathOf place).isAbsolute = true := by
  rw [Path.isAbsolute, pathOf, String.toList_append]
  rfl

/-- The directory to project is there, and its path is absolute. -/
theorem source_eq_ok {tree : FileTree} {options : ProjectionOptions} {path : Path}
    (found : source tree options = .ok path) :
    path.isAbsolute = true ∧ ∃ place, tree.resolve path = .ok (.present place .directory) := by
  unfold source absolute at found
  simp only [bind, Except.bind] at found
  split at found
  · cases found
  · rename_i chosen made
    split at made
    · cases made
    · cases made
      split at found
      · rename_i directory
        cases found
        refine ⟨isAbsolute_absolute _ (isAbsolute_pathOf _), ?_⟩
        unfold isDirectory at directory
        split at directory
        · rename_i place there
          exact ⟨place, find_eq_ok.mp there⟩
        · cases directory
      · cases found

/-! ### Files -/

variable {tree : FileTree} {source output : Path} {place : Place}

/-- Without links it makes no difference whether they are followed. -/
theorem resolve_follow (unlinked : ∀ place target, tree.get? place ≠ some (.link target)) (path : Path)
    (follow : Bool) : tree.resolve path follow = tree.resolve path true := by
  have step (jump other : Place → List String → Except FileError Target) (parts : List String)
      (place : Place) :
      tree.walkFrom follow jump place parts = tree.walkFrom true other place parts := by
    induction parts generalizing place with
    | nil => rfl
    | cons name rest ih =>
      rw [walkFrom, walkFrom, ih, ih, ih]
      cases there : tree.get? (place ++ [name]) with
      | none => rfl
      | some entry =>
        cases entry with
        | link target => exact absurd there (unlinked _ target)
        | file content stamp => rfl
        | directory => rfl
  unfold FileTree.resolve
  rw [walk_eq, walk_eq, step]

/-- The names of the entries below a place. -/
theorem mem_entriesBelow (named : tree.Named) {start : Path} {step : Step}
    (member : step ∈ tree.entriesBelow start place) :
    AreFileNames step.names ∧ step.path = below start step.names ∧
      tree.get? (place ++ step.names) = some step.entry := by
  unfold entriesBelow at member
  obtain ⟨⟨other, entry⟩, inside, made⟩ := List.mem_filterMap.mp member
  dsimp only at made
  split at made
  · rename_i below
    cases made
    rw [Bool.and_eq_true, decide_eq_true_eq, List.isPrefixOf_iff_prefix] at below
    obtain ⟨⟨names, rfl⟩, differs⟩ := below
    have solid : names ≠ [] := by
      rintro rfl
      exact differs (List.append_nil place)
    have there : tree.get? (place ++ names) = some entry := by
      rw [get?, if_neg (by simp [solid])]
      exact SortedMap.get?_eq_some.mpr inside
    dsimp only
    rw [List.drop_left]
    exact ⟨⟨solid, fun name member => named.good there name (List.mem_append_right place member)⟩, rfl,
      there⟩
  · cases made

/-- No names stand twice below a place. -/
theorem pairwise_entriesBelow (tree : FileTree) (start : Path) (place : Place) :
    (tree.entriesBelow start place).Pairwise fun first second => first.names ≠ second.names := by
  unfold entriesBelow
  refine List.pairwise_filterMap.mpr (tree.entries.sorted.imp ?_)
  rintro ⟨other, entry⟩ ⟨further, last⟩ before first made second again same
  dsimp only at made again
  split at made
  · rename_i inside
    split at again
    · rename_i within
      cases made
      cases again
      rw [Bool.and_eq_true, List.isPrefixOf_iff_prefix] at inside within
      obtain ⟨⟨names, rfl⟩, -⟩ := inside
      obtain ⟨⟨others, rfl⟩, -⟩ := within
      dsimp only at same before
      rw [List.drop_left, List.drop_left] at same
      rw [same] at before
      exact StrictOrder.irrefl _ before
    · cases again
  · cases made

/-- The steps of a walk to the files to copy. -/
def steps (tree : FileTree) (source output : Path) (place : Place) : List Step :=
  filesWhere (tree.entriesBelow source place) fun step => step.path.same output

theorem file_of_mem_steps {step : Step} (member : step ∈ steps tree source output place) :
    step ∈ tree.entriesBelow source place ∧ ∃ content stamp, step.entry = .file content stamp := by
  obtain ⟨inside, kept⟩ := List.mem_filter.mp member
  refine ⟨inside, ?_⟩
  cases entry : step.entry with
  | file content stamp => exact ⟨content, stamp, rfl⟩
  | directory => simp [entry] at kept
  | link target => simp [entry] at kept

/-- The files to copy are the names of the steps to them, in order. -/
theorem files_eq (plain : tree.Plain) (absolute : source.isAbsolute = true)
    (found : tree.resolve source = .ok (.present place .directory)) (output : Path) :
    files tree source output =
      ((steps tree source output place).map fun step => Path.ofNames step.names).mergeSort
        fun first second => !second.before first := by
  have start : tree.startOf source = .directory place := by
    unfold startOf
    rw [resolve_follow plain.unlinked source false, found]
  have back : ∀ step ∈ steps tree source output place,
      step.path.relativeTo? source = some (Path.ofNames step.names) := by
    intro step member
    obtain ⟨names, path, -⟩ := mem_entriesBelow plain.isNamed (file_of_mem_steps member).1
    rw [path, Path.below_eq_join source names, Path.relativeTo?_join absolute names]
  have walked : (tree.walkAll source (·.same output)).filterMap (·.relativeTo? source) =
      (steps tree source output place).map fun step => Path.ofNames step.names := by
    rw [walkAll, start, List.filterMap_map]
    exact List.filterMap_eq_map_iff_forall_eq_some.mpr back
  rw [files, walked]

/-- **The files to copy are those of some names below the source**, each of which stands there. -/
theorem files_perm (plain : tree.Plain) (absolute : source.isAbsolute = true)
    (found : tree.resolve source = .ok (.present place .directory)) (output : Path) :
    ∃ named : List (List String), (files tree source output).Perm (named.map Path.ofNames) ∧
      named.Nodup ∧ ∀ names ∈ named, AreFileNames names ∧
        ∃ content stamp, tree.get? (place ++ names) = some (.file content stamp) := by
  refine ⟨(steps tree source output place).map (·.names), ?_, ?_, fun names member => ?_⟩
  · rw [files_eq plain absolute found output, List.map_map]
    exact List.mergeSort_perm _ _
  · exact List.pairwise_map.mpr ((pairwise_entriesBelow tree source place).filter _)
  · obtain ⟨step, inside, rfl⟩ := List.mem_map.mp member
    obtain ⟨below, content, stamp, entry⟩ := file_of_mem_steps inside
    obtain ⟨names, -, there⟩ := mem_entriesBelow plain.isNamed below
    exact ⟨names, content, stamp, entry ▸ there⟩

/-- A walk from a path to a directory does not start at a file. -/
theorem startOf_ne_file (found : tree.resolve source = .ok (.present place .directory)) :
    tree.startOf source ≠ .file := by
  intro start
  unfold startOf at start
  split at start
  · rename_i other content stamp own
    have leads := (leads_of_resolve own).followed nofun
    cases found.symm.trans (resolve_of_leads (usable_of_resolve own) leads)
  · cases start
  · split at start <;> cases start
  · cases start

/-- **A file to copy is that of some names**, whatever links there are. -/
theorem names_of_mem_files (named : tree.Named) (absolute : source.isAbsolute = true)
    (found : tree.resolve source = .ok (.present place .directory)) {file : Path}
    (member : file ∈ files tree source output) : ∃ names, file = Path.ofNames names ∧ AreFileNames names := by
  obtain ⟨path, walked, relative⟩ := List.mem_filterMap.mp (List.mem_mergeSort.mp member)
  unfold walkAll at walked
  split at walked
  · cases walked
  · rename_i start
    exact absurd start (startOf_ne_file found)
  · obtain ⟨step, inside, rfl⟩ := List.mem_map.mp walked
    obtain ⟨names, own, -⟩ := mem_entriesBelow named (List.mem_filter.mp inside).1
    rw [own, Path.below_eq_join source names, Path.relativeTo?_join absolute names] at relative
    exact ⟨step.names, (Option.some.inj relative).symm, names⟩

/-- No file is to be copied twice. -/
theorem nodup_files (plain : tree.Plain) (absolute : source.isAbsolute = true)
    (found : tree.resolve source = .ok (.present place .directory)) (output : Path) :
    (files tree source output).Nodup := by
  obtain ⟨named, perm, nodup, known⟩ := files_perm plain absolute found output
  refine perm.nodup_iff.mpr (List.pairwise_map.mpr ?_)
  refine nodup.imp_of_mem fun {first second} here there differs same => differs ?_
  exact Path.ofNames_inj (known first here).1 (known second there).1 same

/-! ### Targets -/

/-- The place of a copy: the culture and the names of the file below the output. -/
theorem place_of_target (unlinked : ∀ place target, tree.get? place ≠ some (.link target))
    {culture : String} (good : IsFileName culture) {names : List String} (file : AreFileNames names)
    (aims : tree.Aims ((output.join culture).join (Path.ofNames names).text) place) :
    ∃ middle, tree.AimsFrom (origin output.text tree.workingDirectory) (solidParts output.text.toList)
      middle ∧ place = middle ++ culture :: names := by
  have all : AreFileNames (culture :: names) :=
    ⟨List.cons_ne_nil _ _, List.forall_mem_cons.mpr ⟨good, file.good⟩⟩
  rw [Path.join_join output good file] at aims
  obtain ⟨middle, first, same, -⟩ := aims_join unlinked all aims
  exact ⟨middle, first, same⟩

/-- **No two copies are stored at one place.** -/
theorem targets_apart (output : Path) (plain : tree.Plain) (absolute : source.isAbsolute = true)
    (found : tree.resolve source = .ok (.present place .directory)) {cultures : List String}
    (good : ∀ culture ∈ cultures, IsFileName culture) (apart : cultures.Nodup) :
    (copies source output cultures (files tree source output)).Pairwise fun first second =>
      ¬ tree.Shares first.target second.target := by
  have distinct := nodup_files plain absolute found output
  have places {culture other : String} {file further : Path} (first : IsFileName culture)
      (second : IsFileName other) (here : file ∈ files tree source output)
      (there : further ∈ files tree source output)
      (shares : tree.Shares ((output.join culture).join file.text) ((output.join other).join further.text)) :
      culture = other ∧ file = further := by
    obtain ⟨own, rfl, ownNames⟩ := names_of_mem_files plain.isNamed absolute found here
    obtain ⟨more, rfl, moreNames⟩ := names_of_mem_files plain.isNamed absolute found there
    obtain ⟨goal, aims, again⟩ := shares
    obtain ⟨middle, start, rfl⟩ := place_of_target plain.unlinked first ownNames aims
    obtain ⟨center, begins, same⟩ := place_of_target plain.unlinked second moreNames again
    obtain rfl := start.unique begins
    obtain ⟨rfl, rfl⟩ := List.cons.inj (List.append_cancel_left same)
    exact ⟨rfl, rfl⟩
  unfold copies
  refine List.pairwise_flatMap.mpr ⟨fun culture member => ?_, ?_⟩
  · refine List.pairwise_map.mpr (distinct.imp_of_mem fun here there differs shares => differs ?_)
    exact (places (good culture member) (good culture member) here there shares).2
  · refine apart.imp_of_mem fun {culture other} first second differs copy here next there shares => ?_
    obtain ⟨file, inside, rfl⟩ := List.mem_map.mp here
    obtain ⟨further, within, rfl⟩ := List.mem_map.mp there
    exact differs (places (good culture first) (good other second) inside within shares).1

end Projection

end Localization

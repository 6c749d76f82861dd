import Localization.Proofs.FileTree.Names
import Localization.Proofs.FileTree.Readings

/-
**Files below a directory, in trees without links.**

In such a tree a path of names below a directory aims at the place of these names, so that different
names aim at different places.

* `parts_join`, `origin_join` — the parts of a path with names behind it.
* `aims_join` — the place at which it aims.
* `resolve_join` — a file is found by its names below its directory.
* `Plain` — a tree of files and directories; `Plain.store` — it stays one when files are stored.
* `Named` — a tree whose names are names of files; `Named.store`.
-/

namespace Localization

open Text

namespace FileTree

variable {tree : FileTree} {base : Path} {name : String} {names : List String} {place goal : Place}

/-! ### Places of joined paths -/

/-- The names and dots of a path. A slash at the end does not count. -/
def solidParts (text : List Char) : List String :=
  ((Text.pieces Path.isSlash text).filter (· ≠ [])).map String.ofList

theorem parts_eq (text : String) :
    parts text = solidParts text.toList ++ if text.toList.getLast? = some '/' then ["."] else [] := by
  unfold parts parts.pieces
  by_cases slash : text.toList.getLast? = some '/'
  · rw [if_pos slash, if_pos slash]
    rfl
  · rw [if_neg slash, if_neg slash, List.append_nil]
    rfl

theorem solidParts_append (front back : List Char) :
    solidParts (front ++ '/' :: back) = solidParts front ++ solidParts back := by
  unfold solidParts
  rw [pieces_append front (by decide), List.filter_append, List.map_append]

theorem solidParts_slashed (files : AreFileNames names) :
    solidParts (Path.slashed (names.map String.toList)) = names := by
  unfold solidParts
  rw [Path.pieces_slashed (by simp [files.solid]) fun part member => (files.part member).2.1]
  rw [List.filter_eq_self.mpr fun part member => by simp [(files.part member).1], List.map_map]
  exact List.map_id'' (fun _ => String.ofList_toList) names

theorem solidParts_lead (base : Path) (back : List Char) :
    solidParts (base.lead ++ back) = solidParts base.text.toList ++ solidParts back := by
  unfold Path.lead
  split
  · rename_i empty
    rw [empty]
    rfl
  · split
    · rename_i slash
      obtain ⟨front, ends⟩ := List.getLast?_eq_some_iff.mp slash
      have kept : solidParts (front ++ '/' :: []) = solidParts front := by
        rw [solidParts_append]
        exact List.append_nil _
      rw [ends, List.append_assoc, List.singleton_append, solidParts_append, kept]
    · rw [List.append_assoc, List.singleton_append, solidParts_append]

/-- A path with names behind it does not end with a slash. -/
theorem getLast?_join (base : Path) (files : AreFileNames names) :
    (base.join (Path.ofNames names).text).text.toList.getLast? ≠ some '/' := by
  have own := Path.getLast?_ofNames files
  have full : Path.slashed (names.map String.toList) ≠ [] := by
    intro empty
    have none := solidParts_slashed files
    rw [empty] at none
    exact files.solid none.symm
  rw [Path.toList_ofNames] at own
  rw [Path.toList_join_ofNames base files, List.getLast?_append, List.getLast?_eq_some_getLast full,
    Option.some_or]
  rwa [List.getLast?_eq_some_getLast full] at own

/-- The parts of a path with names behind it. -/
theorem parts_join (base : Path) (files : AreFileNames names) :
    parts (base.join (Path.ofNames names).text).text = solidParts base.text.toList ++ names := by
  rw [parts_eq, if_neg (getLast?_join base files), List.append_nil, Path.toList_join_ofNames base files,
    solidParts_lead, solidParts_slashed files]

/-- A path with names behind it starts where the path does. -/
theorem origin_join (base : Path) (files : AreFileNames names) (directory : Place) :
    origin (base.join (Path.ofNames names).text).text directory = origin base.text directory := by
  have text := Path.toList_join_ofNames base files
  have relative := Path.isAbsolute_ofNames files
  rw [Path.isAbsolute, decide_eq_false_iff_not, Path.toList_ofNames] at relative
  unfold origin
  rw [text, Path.lead]
  split
  · rename_i empty
    rw [empty, List.nil_append, if_neg relative]
    rfl
  · rename_i solid
    have full : base.text.toList ≠ [] := fun none => solid (String.toList_eq_nil_iff.mp none)
    split
    · rw [List.head?_append, List.head?_eq_some_head full]
      rfl
    · rw [List.append_assoc, List.head?_append, List.head?_eq_some_head full]
      rfl

/-- Where the names and dots of a path lead, and then other parts. -/
theorem AimsFrom.split {all front behind : List String} (aims : tree.AimsFrom place all goal)
    (whole : all = front ++ behind) :
    ∃ middle, tree.AimsFrom place front middle ∧ tree.AimsFrom middle behind goal := by
  induction aims generalizing front with
  | here =>
    obtain ⟨rfl, rfl⟩ := List.append_eq_nil_iff.mp whole.symm
    exact ⟨_, .here, .here⟩
  | @stay place rest goal later ih =>
    cases front with
    | nil =>
      obtain rfl : _ = behind := whole
      exact ⟨place, .here, .stay later⟩
    | cons name others =>
      obtain ⟨rfl, same⟩ := List.cons.inj whole
      obtain ⟨middle, first, second⟩ := ih same
      exact ⟨middle, .stay first, second⟩
  | @up place rest goal later ih =>
    cases front with
    | nil =>
      obtain rfl : _ = behind := whole
      exact ⟨place, .here, .up later⟩
    | cons name others =>
      obtain ⟨rfl, same⟩ := List.cons.inj whole
      obtain ⟨middle, first, second⟩ := ih same
      exact ⟨middle, .up first, second⟩
  | @jump place name rest target goal good there later ih =>
    cases front with
    | nil =>
      obtain rfl : _ = behind := whole
      exact ⟨place, .here, .jump good there later⟩
    | cons _ others =>
      obtain ⟨rfl, same⟩ := List.cons.inj whole
      have longer : FileTree.parts target ++ rest = FileTree.parts target ++ others ++ behind := by
        rw [same, List.append_assoc]
        rfl
      obtain ⟨middle, first, second⟩ := ih longer
      exact ⟨middle, .jump good there first, second⟩
  | @down place name rest goal good noLink later ih =>
    cases front with
    | nil =>
      obtain rfl : _ = behind := whole
      exact ⟨place, .here, .down good noLink later⟩
    | cons _ others =>
      obtain ⟨rfl, same⟩ := List.cons.inj whole
      obtain ⟨middle, first, second⟩ := ih same
      exact ⟨middle, .down good noLink first, second⟩

/-- Names aim at the place of the names. -/
theorem AimsFrom.of_names (unlinked : ∀ place target, tree.get? place ≠ some (.link target))
    (good : ∀ name ∈ names, IsFileName name) (aims : tree.AimsFrom place names goal) :
    goal = place ++ names ∧ ∀ name ∈ names, IsStep name := by
  induction aims with
  | here => exact ⟨(List.append_nil _).symm, nofun⟩
  | stay => exact absurd rfl (good "." List.mem_cons_self).notDot
  | up => exact absurd rfl (good ".." List.mem_cons_self).notUp
  | jump _ there => exact absurd there (unlinked _ _)
  | down step _ _ ih =>
    obtain ⟨same, steps⟩ := ih fun name member => good name (List.mem_cons_of_mem _ member)
    refine ⟨?_, List.forall_mem_cons.mpr ⟨step, steps⟩⟩
    rw [same, List.append_assoc]
    rfl

/-- **Names below a path aim at the place of these names** below where the path aims. -/
theorem aims_join (unlinked : ∀ place target, tree.get? place ≠ some (.link target))
    (files : AreFileNames names) (aims : tree.Aims (base.join (Path.ofNames names).text) goal) :
    ∃ middle, tree.AimsFrom (origin base.text tree.workingDirectory) (solidParts base.text.toList) middle ∧
      goal = middle ++ names ∧ ∀ name ∈ names, IsStep name := by
  rw [Aims, parts_join base files, origin_join base files] at aims
  obtain ⟨middle, first, second⟩ := aims.split rfl
  obtain ⟨same, steps⟩ := second.of_names unlinked files.good
  exact ⟨middle, first, same, steps⟩

/-! ### Files below a directory -/

/-- Whatever stands below a place stands below a directory. -/
theorem Rooted.above (rooted : tree.Rooted) {entry : Entry} (solid : names ≠ [])
    (there : tree.get? (place ++ names) = some entry) : tree.get? place = some .directory := by
  induction names generalizing place with
  | nil => exact absurd rfl solid
  | cons name rest ih =>
    have parent : ∀ {entry}, tree.get? (place ++ [name]) = some entry →
        tree.get? place = some .directory := fun found => by
      have above := rooted.parent found
      rwa [List.dropLast_concat] at above
    by_cases last : rest = []
    · rw [last] at there
      exact parent there
    · rw [List.append_cons] at there
      exact parent (ih last there)

theorem leads_names (rooted : tree.Rooted) {links : Nat} {content : Content} {stamp : Nat}
    (solid : names ≠ []) (steps : ∀ name ∈ names, IsStep name)
    (file : tree.get? (place ++ names) = some (.file content stamp)) :
    tree.Leads true links place names (.present (place ++ names) (.file content stamp)) := by
  induction names generalizing place with
  | nil => exact absurd rfl solid
  | cons name rest ih =>
    have inside := rooted.above solid file
    have step := steps name List.mem_cons_self
    by_cases last : rest = []
    · subst last
      exact .down inside step file nofun (.here file)
    · rw [List.append_cons] at file ⊢
      exact .down inside step (rooted.above last file) nofun
        (ih last (fun other member => steps other (List.mem_cons_of_mem name member)) file)

/-- Without links, a path goes on from a directory that it leads to. -/
theorem Leads.append (unlinked : ∀ place target, tree.get? place ≠ some (.link target)) {links : Nat}
    {middle : Place} {front behind : List String} {target : Target}
    (leads : tree.Leads true links place front (.present middle .directory))
    (further : tree.Leads true links middle behind target) :
    tree.Leads true links place (front ++ behind) target := by
  generalize same : Target.present middle .directory = ends at leads
  induction leads with
  | here =>
    cases same
    exact further
  | stay inside _ ih => exact .stay inside (ih further same)
  | up inside _ ih => exact .up inside (ih further same)
  | missing => cases same
  | last _ _ _ stop => cases stop
  | jump _ _ there => exact absurd there (unlinked _ _)
  | down inside good there noLink _ ih => exact .down inside good there noLink (ih further same)

/-- A path to a directory leads there without the slash at its end. -/
theorem leads_solidParts (found : tree.resolve base = .ok (.present place .directory)) :
    tree.Leads true linkLimit (origin base.text tree.workingDirectory) (solidParts base.text.toList)
      (.present place .directory) := by
  have leads := leads_of_resolve found
  rw [parts_eq] at leads
  split at leads
  · obtain ⟨middle, front⟩ := leads.front rfl (List.cons_ne_nil _ _)
    obtain ⟨other, first, dot⟩ := leads.aims.split rfl
    obtain rfl := front.aims.unique first
    generalize same : ["."] = parts at dot
    cases dot with
    | here => cases same
    | stay later =>
      cases same
      cases later
      exact front
    | up => exact absurd (List.cons.inj same).1 (by decide)
    | jump good => exact absurd (List.cons.inj same).1.symm good.notDot
    | down good => exact absurd (List.cons.inj same).1.symm good.notDot
  · rwa [List.append_nil] at leads

/-- **A file is found by its names** below a path to its directory. -/
theorem resolve_join (rooted : tree.Rooted)
    (unlinked : ∀ place target, tree.get? place ≠ some (.link target)) (files : AreFileNames names)
    (found : tree.resolve base = .ok (.present place .directory)) {content : Content} {stamp : Nat}
    (file : tree.get? (place ++ names) = some (.file content stamp))
    (usable : Usable (base.join (Path.ofNames names).text).text)
    (steps : ∀ name ∈ names, IsStep name) :
    tree.resolve (base.join (Path.ofNames names).text) =
      .ok (.present (place ++ names) (.file content stamp)) := by
  refine resolve_of_leads usable ?_
  rw [parts_join base files, origin_join base files]
  exact (leads_solidParts found).append unlinked (leads_names rooted files.solid steps file)

/-! ### Trees of files and directories -/

/-- A tree of files and directories, without links. -/
structure Plain (tree : FileTree) : Prop where
  rooted : tree.Rooted
  unlinked : ∀ place target, tree.get? place ≠ some (.link target)
  named : ∀ {place entry}, tree.get? place = some entry → ∀ name ∈ place, IsFileName name

instance (name : String) : Decidable (IsFileName name) :=
  decidable_of_iff (name ≠ "" ∧ '/' ∉ name.toList ∧ name ≠ "." ∧ name ≠ "..")
    ⟨fun ⟨solid, plain, notDot, notUp⟩ => ⟨solid, plain, notDot, notUp⟩,
      fun good => ⟨good.solid, good.plain, good.notDot, good.notUp⟩⟩

/-- A tree is one of files and directories if its entries are such. -/
theorem plain_of_entries (rooted : tree.Rooted)
    (entries : ∀ entry ∈ tree.entries.entries, (match entry.2 with | .link _ => false | _ => true) = true ∧
      ∀ name ∈ entry.1, IsFileName name) : tree.Plain := by
  have known {place : Place} {entry : Entry} (there : tree.get? place = some entry) :
      place = [] ∧ entry = .directory ∨ (place, entry) ∈ tree.entries.entries := by
    unfold get? at there
    split at there
    · rename_i root
      exact .inl ⟨root, (Option.some.inj there).symm⟩
    · exact .inr (SortedMap.get?_eq_some.mp there)
  refine ⟨rooted, fun place target there => ?_, fun {place entry} there name member => ?_⟩
  · rcases known there with ⟨-, same⟩ | inside
    · cases same
    · cases (entries _ inside).1
  · rcases known there with ⟨rfl, -⟩ | inside
    · cases member
    · exact (entries _ inside).2 name member

/-! ### Stored files -/

theorem mem_parts {text : String} (member : name ∈ parts text) : name ≠ "" ∧ '/' ∉ name.toList := by
  rw [parts_eq, List.mem_append] at member
  rcases member with inside | dot
  · obtain ⟨piece, cut, rfl⟩ := List.mem_map.mp inside
    obtain ⟨inside, solid⟩ := List.mem_filter.mp cut
    rw [String.toList_ofList]
    refine ⟨fun empty => of_decide_eq_true solid (by simpa using congrArg String.toList empty), ?_⟩
    exact fun slash => absurd (mem_of_mem_pieces inside slash).1 (by decide)
  · split at dot
    · rw [List.mem_singleton.mp dot]
      decide
    · cases dot

theorem get?_put_of_ne {other : Place} (apart : other ≠ place) (tree : FileTree) (entry : Entry) :
    (tree.put place entry).get? other = tree.get? other := by
  unfold get? put
  rw [SortedMap.get?_insert, if_neg apart]

/-- A directory that is made comes to stand where nothing was found. -/
theorem place_of_createDirectory {made : FileTree} {path : Path} (done : tree.createDirectory path = .ok made) :
    ∃ place, tree.resolve (withoutSlashes path) false = .ok (.absent place) ∧
      made = tree.put place .directory := by
  unfold FileTree.createDirectory at done
  split at done
  · cases done
  · rename_i place found
    cases done
    exact ⟨place, found, rfl⟩
  · cases done

/-- A file that is written comes to stand where its path leads. -/
theorem target_of_write {written : FileTree} {path : Path} {content : Content}
    (done : tree.write path content = .ok written) :
    ∃ target, tree.resolve path = .ok target ∧ written = tree.putFile target.place content := by
  unfold FileTree.write at done
  split at done
  · cases done
  · rename_i place entry _ found
    cases done
    exact ⟨.present place entry, found, rfl⟩
  · rename_i place found
    cases done
    exact ⟨.absent place, found, rfl⟩
  · cases done

/-- The names in a tree are names of files. -/
structure Named (tree : FileTree) : Prop where
  good : ∀ {place entry}, tree.get? place = some entry → ∀ name ∈ place, IsFileName name

theorem Plain.isNamed (plain : tree.Plain) : tree.Named := ⟨plain.named⟩

namespace Named

/-- Where a path leads, all names are names of files. -/
theorem of_leads (named : tree.Named) {follow : Bool} {links : Nat} {parts : List String}
    {target : Target} (leads : tree.Leads follow links place parts target)
    (solid : ∀ name ∈ parts, name ≠ "" ∧ '/' ∉ name.toList) :
    ∀ name ∈ target.place, IsFileName name := by
  induction leads with
  | here there => exact named.good there
  | stay _ _ ih => exact ih fun name member => solid name (List.mem_cons_of_mem _ member)
  | up _ _ ih => exact ih fun name member => solid name (List.mem_cons_of_mem _ member)
  | @missing links place name inside step _ =>
    obtain ⟨full, clean⟩ := solid name List.mem_cons_self
    refine List.forall_mem_append.mpr ⟨named.good inside, List.forall_mem_singleton.mpr ?_⟩
    exact ⟨full, clean, step.notDot, step.notUp⟩
  | last _ _ there => exact named.good there
  | jump _ _ _ _ _ ih =>
    refine ih fun name member => ?_
    rcases List.mem_append.mp member with own | later
    · exact mem_parts own
    · exact solid name (List.mem_cons_of_mem _ later)
  | down _ _ _ _ _ ih => exact ih fun name member => solid name (List.mem_cons_of_mem _ member)

/-- Names stay names of files when something comes to stand where a path leads. -/
theorem ofEntry (named : tree.Named) {after : FileTree} {path : Path} {follow : Bool} {target : Target}
    (found : tree.resolve path follow = .ok target)
    (same : ∀ other, other ≠ target.place → after.get? other = tree.get? other) : after.Named where
  good {place entry} there := by
    by_cases here : place = target.place
    · rw [here]
      exact named.of_leads (leads_of_resolve found) fun name member => mem_parts member
    · rw [same place here] at there
      exact named.good there

theorem createDirectory {made : FileTree} {path : Path} (named : tree.Named)
    (done : tree.createDirectory path = .ok made) : made.Named := by
  obtain ⟨place, found, rfl⟩ := place_of_createDirectory done
  exact named.ofEntry found fun other apart => get?_put_of_ne apart tree .directory

theorem createParents (named : tree.Named) (path : Path) : (tree.createParents path).2.Named := by
  refine createParents_of_step (R := fun before after => before.Named → after.Named)
    (fun _ => id) (fun first second => second ∘ first)
    (fun done named => named.createDirectory done) tree path named

theorem write {written : FileTree} {path : Path} {content : Content} (named : tree.Named)
    (done : tree.write path content = .ok written) : written.Named := by
  obtain ⟨target, found, rfl⟩ := target_of_write done
  exact named.ofEntry found fun other apart => get?_put_of_ne apart tree _

/-- **Names stay names of files when a file is stored**, also where that fails. -/
theorem store (named : tree.Named) (path : Path) (content : Content) :
    (tree.store path content).2.Named := by
  have parents := named.createParents path
  unfold FileTree.store
  split
  · rename_i failure left made
    rw [made] at parents
    exact parents
  · rename_i left made
    rw [made] at parents
    split
    · rename_i written done
      exact parents.write done
    · exact parents

end Named

/-- **A tree stays one of files and directories when a file is stored**, also where that fails. -/
theorem Plain.store (plain : tree.Plain) (path : Path) (content : Content) :
    (tree.store path content).2.Plain where
  rooted := (grows_store plain.rooted path content).rooted plain.rooted
  unlinked place target there :=
    plain.unlinked place target ((grows_store plain.rooted path content).links there)
  named := (plain.isNamed.store path content).good

end FileTree

end Localization

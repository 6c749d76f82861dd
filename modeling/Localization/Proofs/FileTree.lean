import Localization.FileTree.Files
import Localization.Proofs.SortedMap
import Localization.Proofs.Text

/-
**Trees in which files are written.**

Directories and links stay where they are when files are written, so a path goes on leading to the
same place.

* `Leads` — where the parts of a path lead; `walk_eq_ok` — a walk ends there.
* `Keeps.leads` — a path leads to the same file in a tree that keeps directories and links.
* `Leads.last_name` — the last name of a path is the name of its place, unless a link has that name.
* `Writes` — what writing files of one name leaves as it is.
* `resolve_store`, `Writes.resolve` — a stored file is found on its path, also after files of other
  names are written.
-/

namespace Localization

namespace FileTree

/-! ### Places -/

/-- The place of a target. -/
def Target.place : Target → Place
  | .present place _ => place
  | .absent place => place

/-- What stands there. -/
def Target.occupant : Target → Option Entry
  | .present _ entry => some entry
  | .absent _ => none

theorem get?_put {tree : FileTree} {place : Place} (solid : place ≠ []) (entry : Entry)
    (other : Place) :
    (tree.put place entry).get? other = if other = place then some entry else tree.get? other := by
  unfold get? put
  by_cases root : other = []
  · subst root
    rw [if_pos rfl, if_pos rfl, if_neg (Ne.symm solid)]
  · rw [if_neg root, if_neg root, SortedMap.get?_insert]

theorem get?_putFile {tree : FileTree} {place : Place} (solid : place ≠ []) (content : Content)
    (other : Place) :
    (tree.putFile place content).get? other =
      if other = place then some (.file content tree.clock) else tree.get? other :=
  get?_put solid _ other

/-- A name that a walk goes on to: no dot, and not too long. -/
structure IsStep (name : String) : Prop where
  notDot : name ≠ "."
  notUp : name ≠ ".."
  short : ¬ nameLimit < name.utf8ByteSize

/-- The parts of a path lead from a place to a target, through at most `links` links. -/
inductive Leads (tree : FileTree) (follow : Bool) :
    (links : Nat) → (place : Place) → (parts : List String) → (target : Target) → Prop
  | here {links place entry} (there : tree.get? place = some entry) :
    tree.Leads follow links place [] (.present place entry)
  | stay {links place rest target} (inside : tree.get? place = some .directory)
      (later : tree.Leads follow links place rest target) :
    tree.Leads follow links place ("." :: rest) target
  | up {links place rest target} (inside : tree.get? place = some .directory)
      (later : tree.Leads follow links place.dropLast rest target) :
    tree.Leads follow links place (".." :: rest) target
  | missing {links place name} (inside : tree.get? place = some .directory) (good : IsStep name)
      (absent : tree.get? (place ++ [name]) = none) :
    tree.Leads follow links place [name] (.absent (place ++ [name]))
  | last {links place name target} (inside : tree.get? place = some .directory) (good : IsStep name)
      (there : tree.get? (place ++ [name]) = some (.link target)) (stop : follow = false) :
    tree.Leads follow links place [name] (.present (place ++ [name]) (.link target))
  | jump {links place name rest target result} (inside : tree.get? place = some .directory)
      (good : IsStep name) (there : tree.get? (place ++ [name]) = some (.link target))
      (goesOn : ¬ (rest = [] && !follow) = true)
      (later : tree.Leads follow links (origin target place) (FileTree.parts target ++ rest) result) :
    tree.Leads follow (links + 1) place (name :: rest) result
  | down {links place name rest entry target} (inside : tree.get? place = some .directory)
      (good : IsStep name) (there : tree.get? (place ++ [name]) = some entry)
      (noLink : ∀ other, entry ≠ .link other)
      (later : tree.Leads follow links (place ++ [name]) rest target) :
    tree.Leads follow links place (name :: rest) target

theorem leads_of_walkFrom {tree : FileTree} {follow : Bool} {links : Nat}
    {jump : Place → List String → Except FileError Target}
    (jumps : ∀ place parts target, jump place parts = .ok target →
      ∃ fewer, links = fewer + 1 ∧ tree.Leads follow fewer place parts target)
    {place : Place} {parts : List String} {target : Target}
    (found : tree.walkFrom follow jump place parts = .ok target) :
    tree.Leads follow links place parts target := by
  induction parts generalizing place with
  | nil =>
    rw [walkFrom] at found
    split at found
    · rename_i there
      cases found
      exact .here there
    · cases found
  | cons name rest ih =>
    rw [walkFrom] at found
    split at found
    · rename_i inside
      split at found
      · rename_i dot
        subst dot
        exact .stay inside (ih found)
      · rename_i notDot
        split at found
        · rename_i up
          subst up
          exact .up inside (ih found)
        · rename_i notUp
          split at found
          · cases found
          · rename_i short
            have good : IsStep name := ⟨notDot, notUp, short⟩
            split at found
            · rename_i absent
              split at found
              · rename_i ends
                subst ends
                cases found
                exact .missing inside good absent
              · cases found
            · rename_i there
              split at found
              · rename_i stop
                cases found
                simp only [Bool.and_eq_true, decide_eq_true_eq, Bool.not_eq_true'] at stop
                obtain ⟨rfl, stop⟩ := stop
                exact .last inside good there stop
              · rename_i goesOn
                obtain ⟨fewer, rfl, later⟩ := jumps _ _ _ found
                exact .jump inside good there goesOn later
            · rename_i entry noLink there
              exact .down inside good there noLink (ih found)
    · cases found

/-- Where a walk goes on from a link, if it may follow so many more. -/
def jumpWithin (tree : FileTree) (follow : Bool) :
    Nat → Place → List String → Except FileError Target
  | 0 => fun _ _ => .error .tooManyLinks
  | links + 1 => tree.walk follow links

theorem walk_eq (tree : FileTree) (follow : Bool) (links : Nat) :
    tree.walk follow links = tree.walkFrom follow (tree.jumpWithin follow links) := by
  cases links <;> rfl

theorem leads_of_walk {tree : FileTree} {follow : Bool} {links : Nat} {place : Place}
    {parts : List String} {target : Target}
    (found : tree.walk follow links place parts = .ok target) :
    tree.Leads follow links place parts target := by
  induction links generalizing place parts target with
  | zero =>
    rw [walk_eq] at found
    refine leads_of_walkFrom (fun place parts target later => ?_) found
    cases later
  | succ links ih =>
    rw [walk_eq] at found
    exact leads_of_walkFrom (fun place parts target later => ⟨links, rfl, ih later⟩) found

/-- A walk goes on to a name by what stands there. -/
theorem walkFrom_step {tree : FileTree} {place : Place} {name : String}
    (inside : tree.get? place = some .directory) (good : IsStep name) (follow : Bool)
    (jump : Place → List String → Except FileError Target) (rest : List String) :
    tree.walkFrom follow jump place (name :: rest) =
      match tree.get? (place ++ [name]) with
      | none => if rest = [] then .ok (.absent (place ++ [name])) else .error .notFound
      | some (.link target) =>
        if rest = [] && !follow then .ok (.present (place ++ [name]) (.link target))
        else jump (origin target place) (FileTree.parts target ++ rest)
      | some _ => tree.walkFrom follow jump (place ++ [name]) rest := by
  rw [walkFrom, inside]
  exact (if_neg good.notDot).trans ((if_neg good.notUp).trans (if_neg good.short))

/-- **A walk ends where the parts of the path lead.** -/
theorem walk_eq_ok {tree : FileTree} {follow : Bool} {links : Nat} {place : Place}
    {parts : List String} {target : Target} :
    tree.walk follow links place parts = .ok target ↔
      tree.Leads follow links place parts target := by
  refine ⟨leads_of_walk, fun leads => ?_⟩
  induction leads with
  | here there => rw [walk_eq, walkFrom, there]
  | stay inside _ ih =>
    rw [walk_eq] at ih ⊢
    rw [walkFrom, inside]
    exact ih
  | up inside _ ih =>
    rw [walk_eq] at ih ⊢
    rw [walkFrom, inside]
    exact ih
  | missing inside good absent =>
    rw [walk_eq, walkFrom_step inside good, absent]
    rfl
  | last inside good there stop =>
    rw [walk_eq, walkFrom_step inside good, there, stop]
    rfl
  | jump inside good there goesOn _ ih =>
    rw [walk_eq, walkFrom_step inside good, there]
    dsimp only
    rw [if_neg goesOn]
    exact ih
  | @down _ _ _ _ entry _ inside good there noLink _ ih =>
    rw [walk_eq] at ih ⊢
    rw [walkFrom_step inside good, there]
    cases entry with
    | link other => exact absurd rfl (noLink other)
    | file content stamp => exact ih
    | directory => exact ih

/-- A path leads to what stands at its place; an absent place is not the root. -/
theorem Leads.get? {tree : FileTree} {follow : Bool} {links : Nat} {place : Place}
    {parts : List String} {target : Target}
    (leads : tree.Leads follow links place parts target) :
    tree.get? target.place = target.occupant ∧ (target.occupant = none → target.place ≠ []) := by
  induction leads with
  | here there => exact ⟨there, nofun⟩
  | stay _ _ ih => exact ih
  | up _ _ ih => exact ih
  | missing _ _ absent => exact ⟨absent, fun _ => List.concat_ne_nil _ _⟩
  | last _ _ there => exact ⟨there, nofun⟩
  | jump _ _ _ _ _ ih => exact ih
  | down _ _ _ _ _ ih => exact ih

/-! ### Paths in trees that keep directories and links -/

/-- The directories and links of a tree stay as they are. -/
structure Keeps (before after : FileTree) : Prop where
  workingDirectory : after.workingDirectory = before.workingDirectory
  directory : ∀ {place}, before.get? place = some .directory → after.get? place = some .directory
  link : ∀ {place target}, before.get? place = some (.link target) →
    after.get? place = some (.link target)

/-- No path goes on behind a file. -/
theorem Leads.place_of_file {tree : FileTree} {place : Place} {content : Content} {stamp : Nat}
    (file : tree.get? place = some (.file content stamp)) {follow : Bool} {links : Nat}
    {parts : List String} {target : Target}
    (leads : tree.Leads follow links place parts target) : target.place = place := by
  have noDirectory : tree.get? place ≠ some .directory := by
    rw [file]
    nofun
  cases leads with
  | here => rfl
  | stay inside => exact absurd inside noDirectory
  | up inside => exact absurd inside noDirectory
  | missing inside => exact absurd inside noDirectory
  | last inside => exact absurd inside noDirectory
  | jump inside => exact absurd inside noDirectory
  | down inside => exact absurd inside noDirectory

/-- **A path leads to the same file in a tree that keeps directories and links.** -/
theorem Keeps.leads {before after : FileTree} (keeps : before.Keeps after) {links : Nat}
    {place : Place} {parts : List String} {target : Target}
    (leads : before.Leads true links place parts target) {content : Content} {stamp : Nat}
    (file : after.get? target.place = some (.file content stamp)) :
    after.Leads true links place parts (.present target.place (.file content stamp)) := by
  induction leads with
  | here => exact .here file
  | stay inside _ ih => exact .stay (keeps.directory inside) (ih file)
  | up inside _ ih => exact .up (keeps.directory inside) (ih file)
  | missing inside good =>
    exact .down (keeps.directory inside) good file nofun (.here file)
  | last _ _ _ stop => cases stop
  | jump inside good there goesOn _ ih =>
    exact .jump (keeps.directory inside) good (keeps.link there) goesOn (ih file)
  | @down links place name rest entry target inside good there noLink later ih =>
    -- What stands at the place is a directory, which stays, or the file at the end of the path.
    cases entry with
    | file _ _ =>
      have same := later.place_of_file there
      rw [same] at file
      exact .down (keeps.directory inside) good file nofun (ih (same ▸ file))
    | directory => exact .down (keeps.directory inside) good (keeps.directory there) nofun (ih file)
    | link other => exact absurd rfl (noLink other)

/-! ### Names of places -/

/-- A name that a file can have. -/
structure IsFileName (name : String) : Prop where
  solid : name ≠ ""
  plain : '/' ∉ name.toList
  notDot : name ≠ "."
  notUp : name ≠ ".."

/-- No link has the name. -/
def Unlinked (name : String) (tree : FileTree) : Prop :=
  ∀ place target, tree.get? place = some (.link target) → place.getLast? ≠ some name

theorem getLast?_of_cons {name other : String} {rest : List String}
    (ends : (other :: rest).getLast? = some name) :
    (rest = [] ∧ other = name) ∨ (rest ≠ [] ∧ rest.getLast? = some name) := by
  cases rest with
  | nil => exact .inl ⟨rfl, Option.some.inj ends⟩
  | cons next others => exact .inr ⟨List.cons_ne_nil next others, ends⟩

/-- **The last name of a path is the name of its place**, unless a link has that name. -/
theorem Leads.last_name {tree : FileTree} {name : String} (good : IsFileName name)
    (unlinked : tree.Unlinked name) {links : Nat} {place : Place} {parts : List String}
    {target : Target} (leads : tree.Leads true links place parts target)
    (ends : parts.getLast? = some name) :
    target.place.getLast? = some name ∧ ∀ link, target.occupant ≠ some (.link link) := by
  induction leads with
  | here => cases ends
  | stay _ _ ih =>
    rcases getLast?_of_cons ends with ⟨-, same⟩ | ⟨-, later⟩
    · exact absurd same.symm good.notDot
    · exact ih later
  | up _ _ ih =>
    rcases getLast?_of_cons ends with ⟨-, same⟩ | ⟨-, later⟩
    · exact absurd same.symm good.notUp
    · exact ih later
  | missing =>
    cases ends
    exact ⟨List.getLast?_concat, nofun⟩
  | last _ _ _ stop => cases stop
  | jump _ _ there _ _ ih =>
    rcases getLast?_of_cons ends with ⟨-, same⟩ | ⟨-, later⟩
    · subst same
      exact absurd List.getLast?_concat (unlinked _ _ there)
    · refine ih ?_
      rw [List.getLast?_append, later]
      rfl
  | down _ _ there noLink further ih =>
    rcases getLast?_of_cons ends with ⟨rfl, rfl⟩ | ⟨-, later⟩
    · cases further with
      | here found =>
        rw [there] at found
        cases found
        refine ⟨List.getLast?_concat, fun link same => ?_⟩
        exact noLink link (Option.some.inj same)
    · exact ih later

theorem toList_join (base : Path) {name : String} (plain : '/' ∉ name.toList) :
    (base.join name).text.toList = name.toList ∨
      ∃ front, (base.join name).text.toList = front ++ '/' :: name.toList := by
  have relative : (Path.mk name).isAbsolute = false := by
    rw [Path.isAbsolute, decide_eq_false_iff_not]
    exact fun first => plain (List.mem_of_head? first)
  unfold Path.join
  rw [relative, if_neg Bool.false_ne_true]
  by_cases empty : base.text = ""
  · left
    simp [empty]
  · right
    by_cases slash : base.text.toList.getLast? = some '/'
    · obtain ⟨front, ends⟩ := List.getLast?_eq_some_iff.mp slash
      exact ⟨front, by simp [ends]⟩
    · exact ⟨base.text.toList, by simp [empty, slash]⟩

/-- The last part of a path is the name that is joined to it last. -/
theorem getLast?_parts_join (base : Path) {name : String} (good : IsFileName name) :
    (parts (base.join name).text).getLast? = some name := by
  have full : name.toList ≠ [] := fun empty => good.solid (String.toList_eq_nil_iff.mp empty)
  have whole : Text.pieces Path.isSlash name.toList = [name.toList] := by
    refine Text.pieces_of_clean fun c member => ?_
    rw [Path.isSlash, beq_eq_false_iff_ne]
    rintro rfl
    exact good.plain member
  have cut : ∃ front, Text.pieces Path.isSlash (base.join name).text.toList =
      front ++ [name.toList] := by
    rcases toList_join base good.plain with same | ⟨front, same⟩
    · exact ⟨[], by rw [same, whole]; rfl⟩
    · refine ⟨Text.pieces Path.isSlash front, ?_⟩
      rw [same, Text.pieces_append front (by rfl), whole]
  have last : (base.join name).text.toList.getLast? = name.toList.getLast? := by
    have kept (front : List Char) : (front ++ name.toList).getLast? = name.toList.getLast? := by
      rw [List.getLast?_append, List.getLast?_eq_some_getLast full]
      rfl
    rcases toList_join base good.plain with same | ⟨front, same⟩
    · rw [same]
    · rw [same, ← List.singleton_append, ← List.append_assoc, kept]
  obtain ⟨front, same⟩ := cut
  have unclosed : name.toList.getLast? ≠ some '/' := fun slash =>
    good.plain (List.mem_of_getLast? slash)
  unfold parts parts.pieces
  rw [last, if_neg unclosed, same, List.filter_append, List.map_append, List.getLast?_append]
  simp [full]

theorem leads_of_resolve {tree : FileTree} {path : Path} {follow : Bool} {target : Target}
    (found : tree.resolve path follow = .ok target) :
    tree.Leads follow linkLimit (origin path.text tree.workingDirectory) (parts path.text)
      target := by
  unfold resolve at found
  split at found
  · cases found
  · split at found
    · cases found
    · split at found
      · cases found
      · exact walk_eq_ok.mp found

/-- A path is found in a tree that keeps directories and links. -/
theorem Keeps.resolve {before after : FileTree} (keeps : before.Keeps after) {path : Path}
    {target : Target} (found : before.resolve path = .ok target) {content : Content} {stamp : Nat}
    (file : after.get? target.place = some (.file content stamp)) :
    after.resolve path = .ok (.present target.place (.file content stamp)) := by
  have again := walk_eq_ok.mpr (keeps.leads (leads_of_resolve found) file)
  unfold FileTree.resolve at found ⊢
  rw [keeps.workingDirectory]
  split at found
  · cases found
  · rename_i clean
    split at found
    · cases found
    · rename_i solid
      split at found
      · cases found
      · rename_i short
        rw [if_neg clean, if_neg solid, if_neg short, again]

/-! ### Writing -/

section Directories

variable {R : FileTree → FileTree → Prop} (refl : ∀ tree, R tree tree)
  (trans : ∀ {first second third}, R first second → R second third → R first third)
  (step : ∀ {tree made path}, createDirectory tree path = .ok made → R tree made)

include refl step in
theorem ensureDirectory_of_step {tree made : FileTree} {path : Path}
    (done : tree.ensureDirectory path = .ok made) : R tree made := by
  unfold ensureDirectory at done
  split at done
  · rename_i other created
    cases done
    exact step created
  · split at done
    · cases done
      exact refl tree
    · cases done

include refl trans step

theorem createFrom_of_step (depth : Nat) (tree : FileTree) (path : Path) :
    R tree (createFrom depth tree path).2 := by
  fun_induction createFrom depth tree path with
  | case1 => exact refl _
  | case2 _ _ _ made created => exact step created
  | case3 _ _ _ _ _ _ _ _ above ih =>
    rw [above] at ih
    exact ih
  | case4 _ _ _ _ _ _ _ above made ensured ih =>
    rw [above] at ih
    exact trans ih (ensureDirectory_of_step refl step ensured)
  | case5 _ _ _ _ _ _ _ above _ _ ih =>
    rw [above] at ih
    exact ih
  | case6 => exact refl _
  | case7 => exact refl _
  | case8 => exact refl _

/-- What one new directory keeps is kept when the directories above a path are made. -/
theorem createParents_of_step (tree : FileTree) (path : Path) :
    R tree (tree.createParents path).2 := by
  unfold createParents
  split
  · exact refl tree
  · exact createFrom_of_step refl trans step _ tree _

end Directories

/-- What writing files of a name and making directories changes: no directory, no link, and no
file of another name. -/
structure Writes (name : String) (before after : FileTree) : Prop where
  keeps : before.Keeps after
  files : ∀ {place content stamp}, before.get? place = some (.file content stamp) →
    place.getLast? ≠ some name → after.get? place = some (.file content stamp)
  links : ∀ {place target}, after.get? place = some (.link target) →
    before.get? place = some (.link target)

namespace Writes

variable {name : String} {first second third : FileTree}

theorem refl (name : String) (tree : FileTree) : Writes name tree tree where
  keeps := ⟨rfl, id, id⟩
  files there _ := there
  links := id

theorem trans (earlier : Writes name first second) (later : Writes name second third) :
    Writes name first third where
  keeps :=
    { workingDirectory := later.keeps.workingDirectory.trans earlier.keeps.workingDirectory
      directory := fun there => later.keeps.directory (earlier.keeps.directory there)
      link := fun there => later.keeps.link (earlier.keeps.link there) }
  files there other := later.files (earlier.files there other) other
  links there := earlier.links (later.links there)

theorem unlinked (writes : Writes name first second) {other : String}
    (unlinked : first.Unlinked other) : second.Unlinked other :=
  fun place target there => unlinked place target (writes.links there)

/-- A new entry that is no link leaves the others as they are. -/
theorem put {tree : FileTree} {place : Place} {entry : Entry} (missing : tree.get? place = none)
    (solid : place ≠ []) (plain : ∀ target, entry ≠ .link target) :
    Writes name tree (tree.put place entry) := by
  have stays {other : Place} {there : Entry} (known : tree.get? other = some there) :
      (tree.put place entry).get? other = some there := by
    rw [get?_put solid, if_neg, known]
    rintro rfl
    rw [missing] at known
    cases known
  refine ⟨⟨rfl, stays, stays⟩, fun there _ => stays there, fun {other target} there => ?_⟩
  rw [get?_put solid] at there
  split at there
  · exact absurd (Option.some.inj there) (plain target)
  · exact there

/-- A file of the name, new or in place of another, leaves the others as they are. -/
theorem putFile {tree : FileTree} {place : Place} (named : place.getLast? = some name)
    (free : ∀ entry, tree.get? place = some entry → ∃ content stamp, entry = .file content stamp)
    (content : Content) : Writes name tree (tree.putFile place content) := by
  have solid : place ≠ [] := by
    rintro rfl
    cases named
  have stays {other : Place} {there : Entry} (known : tree.get? other = some there)
      (differs : other ≠ place) : (tree.putFile place content).get? other = some there := by
    rw [get?_putFile solid, if_neg differs, known]
  have kept {other : Place} {there : Entry} (known : tree.get? other = some there)
      (noFile : ∀ content stamp, there ≠ .file content stamp) :
      (tree.putFile place content).get? other = some there := by
    refine stays known ?_
    rintro rfl
    obtain ⟨_, _, same⟩ := free _ known
    exact noFile _ _ same
  refine ⟨⟨rfl, fun there => kept there nofun, fun there => kept there nofun⟩,
    fun {other} _ _ there differs => ?_, fun {other target} there => ?_⟩
  · refine stays there ?_
    rintro rfl
    exact differs named
  · rw [get?_putFile solid] at there
    split at there
    · cases there
    · exact there

theorem createDirectory {tree made : FileTree} {path : Path}
    (done : tree.createDirectory path = .ok made) : Writes name tree made := by
  unfold FileTree.createDirectory at done
  split at done
  · cases done
  · rename_i place found
    cases done
    obtain ⟨missing, solid⟩ := (leads_of_resolve found).get?
    exact put missing (solid rfl) nofun
  · cases done

theorem createParents (name : String) (tree : FileTree) (path : Path) :
    Writes name tree (tree.createParents path).2 :=
  createParents_of_step (refl name) trans createDirectory tree path

end Writes

/-- A file that can be put where a path leads stands there and is found on the path. -/
theorem putFile_of_resolve {tree : FileTree} {base : Path} {name : String} (good : IsFileName name)
    (unlinked : tree.Unlinked name) {target : Target}
    (found : tree.resolve (base.join name) = .ok target)
    (free : target.occupant ≠ some .directory) (content : Content) :
    Writes name tree (tree.putFile target.place content) ∧
      ∃ place stamp, (tree.putFile target.place content).resolve (base.join name) =
        .ok (.present place (.file content stamp)) ∧ place.getLast? = some name := by
  have leads := leads_of_resolve found
  obtain ⟨named, noLink⟩ := leads.last_name good unlinked (getLast?_parts_join base good)
  have solid : target.place ≠ [] := by
    intro empty
    rw [empty] at named
    cases named
  have onlyFile : ∀ entry, tree.get? target.place = some entry →
      ∃ content stamp, entry = .file content stamp := by
    intro entry there
    rw [leads.get?.1] at there
    cases entry with
    | file content stamp => exact ⟨content, stamp, rfl⟩
    | directory => exact absurd there free
    | link other => exact absurd there (noLink other)
  have writes := Writes.putFile named onlyFile content
  have there : (tree.putFile target.place content).get? target.place =
      some (.file content tree.clock) := by
    rw [get?_putFile solid, if_pos rfl]
  exact ⟨writes, target.place, tree.clock, writes.keeps.resolve found there, named⟩

/-- A written file stands where its path leads, and holds what was written. -/
theorem write_eq_ok {tree written : FileTree} {base : Path} {name : String} {content : Content}
    (good : IsFileName name) (unlinked : tree.Unlinked name)
    (done : tree.write (base.join name) content = .ok written) :
    Writes name tree written ∧
      ∃ place stamp, written.resolve (base.join name) = .ok (.present place (.file content stamp)) ∧
        place.getLast? = some name := by
  unfold write at done
  split at done
  · cases done
  · rename_i place entry noDirectory found
    cases done
    refine putFile_of_resolve good unlinked found ?_ content
    intro same
    cases same
    exact noDirectory rfl
  · rename_i place found
    cases done
    exact putFile_of_resolve good unlinked found nofun content
  · cases done

/-- Storing a file changes no file of another name, also where it fails. -/
theorem Writes.store {tree : FileTree} {base : Path} {name : String} (good : IsFileName name)
    (unlinked : tree.Unlinked name) (content : Content) :
    Writes name tree (tree.store (base.join name) content).2 := by
  have parents := Writes.createParents name tree (base.join name)
  unfold FileTree.store
  split
  · rename_i failure left made
    rw [made] at parents
    exact parents
  · rename_i left made
    rw [made] at parents
    split
    · rename_i written done
      exact parents.trans (write_eq_ok good (parents.unlinked unlinked) done).1
    · exact parents

/-- **A stored file stands where its path leads, and holds what was stored.** -/
theorem resolve_store {tree left : FileTree} {base : Path} {name : String} {content : Content}
    (good : IsFileName name) (unlinked : tree.Unlinked name)
    (stored : tree.store (base.join name) content = (.ok (), left)) :
    ∃ place stamp, left.resolve (base.join name) = .ok (.present place (.file content stamp)) ∧
      place.getLast? = some name := by
  have parents := Writes.createParents name tree (base.join name)
  unfold FileTree.store at stored
  split at stored
  · cases stored
  · rename_i middle made
    rw [made] at parents
    split at stored
    · rename_i written done
      cases stored
      exact (write_eq_ok good (parents.unlinked unlinked) done).2
    · cases stored

/-- A file stays, and is found on its path, when files of another name are written. -/
theorem Writes.resolve {before after : FileTree} {name : String} (writes : Writes name before after)
    {path : Path} {place : Place} {content : Content} {stamp : Nat}
    (found : before.resolve path = .ok (.present place (.file content stamp)))
    (other : place.getLast? ≠ some name) :
    after.resolve path = .ok (.present place (.file content stamp)) :=
  writes.keeps.resolve found (writes.files (leads_of_resolve found).get?.1 other)

theorem readText_of_resolve {tree : FileTree} {path : Path} {place : Place} {text : String}
    {stamp : Nat} (found : tree.resolve path = .ok (.present place (.file (.text text) stamp))) :
    tree.readText path = .ok text := by
  rw [readText, read, find, found]

end FileTree

end Localization

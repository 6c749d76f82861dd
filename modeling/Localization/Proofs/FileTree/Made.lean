import Localization.Proofs.FileTree.Spellings

/-
**What comes to stand in a tree when a file is stored.**

Storing a file makes the directories above it where they are missing. So what is new stands where the path of
the file aims, or where a path of its first components does.

* `Path.Front` — a path of the first components of another one; `Front.parent`.
* `FileTree.Makes` — all that is new stands where such paths aim; `Makes.trans`.
* `makes_createFrom`, `makes_store` — what making directories and storing a file makes.
-/

namespace Localization

open Text

/-! ### The first components of a path -/

namespace Path

variable {front path target : Path}

/-- A path of the first components of another one, without a slash at its end. -/
structure Front (front target : Path) : Prop where
  open_end : front.text.toList.getLast? ≠ some '/'
  components : front.components <+: target.components

/-- What stands in front of a slash spells the first components. -/
theorem components_in_front (solid : front.text ≠ "") {more : List Char}
    (split : path.text.toList = front.text.toList ++ '/' :: more) :
    front.components <+: path.components := by
  have full : front.text.toList ≠ [] := fun empty => solid (String.toList_eq_nil_iff.mp empty)
  have start : front.start.1 = path.start.1 := by
    refine start_fst_congr ?_ ?_
    · rw [split, List.head?_append, List.head?_eq_some_head full]
      rfl
    · rw [split, head?_pieces_append]
  rw [components_eq front, components_eq path, start, split, counted_append, List.map_append,
    ← List.append_assoc]
  exact List.prefix_append _ _

/-- **The parent of a path has first components of it**, unless it is the root. -/
theorem Front.parent {parent : Path} (own : front.Front target) (above : front.parent? = some parent) :
    parent.text = "/" ∨ parent.Front target := by
  have empty (none : parent.text = "") : parent.Front target := by
    obtain ⟨text⟩ := parent
    cases none
    exact ⟨nofun, List.nil_prefix⟩
  rcases parent?_spelled above with none | root | ⟨open_end, more, split⟩
  · exact .inr (empty none)
  · exact .inl root
  · by_cases none : parent.text = ""
    · exact .inr (empty none)
    · exact .inr ⟨open_end, (components_in_front none split).trans own.components⟩

end Path

namespace FileTree

variable {tree first second third made written : FileTree} {path target : Path} {place : Place}

/-! ### What is new -/

/-- All that is new stands where a path of first components of another one aims. -/
def Makes (target : Path) (before after : FileTree) : Prop :=
  ∀ place entry, after.get? place = some entry → before.get? place = none →
    ∃ front, front.Front target ∧ before.Aims front place

theorem Makes.refl (target : Path) (tree : FileTree) : Makes target tree tree :=
  fun _ _ there missing => nomatch there.symm.trans missing

theorem Makes.trans {spots : Place → Prop} (grows : Grows spots first second)
    (earlier : Makes target first second) (later : Makes target second third) :
    Makes target first third := by
  intro place entry there missing
  cases between : second.get? place with
  | some other => exact earlier place other between missing
  | none =>
    obtain ⟨front, own, aims⟩ := later place entry there between
    exact ⟨front, own, grows.aims.mp aims⟩

/-- Something comes to stand where a path leads. -/
theorem makes_put (front : path.Front target) (aims : tree.Aims path place) {after : FileTree}
    (same : ∀ other, other ≠ place → after.get? other = tree.get? other) : Makes target tree after := by
  intro other entry there missing
  by_cases here : other = place
  · exact ⟨path, front, here ▸ aims⟩
  · rw [same other here, missing] at there
    cases there

/-! ### Directories -/

/-- The root is there. -/
theorem createDirectory_root (tree : FileTree) :
    tree.createDirectory ⟨"/"⟩ = .error .alreadyExists := by
  have leads : tree.Leads false linkLimit (origin "/" tree.workingDirectory) (parts "/")
      (.present [] .directory) := .stay rfl (.here rfl)
  have usable : Usable "/" := ⟨by decide, by decide, by decide⟩
  have found : tree.resolve ⟨"/"⟩ false = .ok (.present [] .directory) := resolve_of_leads usable leads
  have root : withoutSlashes ⟨"/"⟩ = ⟨"/"⟩ := by decide
  unfold createDirectory
  rw [root, found]

theorem makes_createDirectory (own : path.text = "/" ∨ path.Front target)
    (done : tree.createDirectory path = .ok made) : Makes target tree made := by
  rcases own with root | own
  · obtain ⟨text⟩ := path
    cases root
    cases (createDirectory_root tree).symm.trans done
  · obtain ⟨place, found, rfl⟩ := place_of_createDirectory done
    rw [withoutSlashes_of_open own.open_end] at found
    have leads := (leads_of_resolve found).followed nofun
    exact makes_put own leads.aims fun spot apart => get?_put_of_ne apart tree .directory

theorem makes_ensureDirectory (own : path.text = "/" ∨ path.Front target)
    (done : tree.ensureDirectory path = .ok made) : Makes target tree made := by
  unfold ensureDirectory at done
  split at done
  · rename_i other created
    cases done
    exact makes_createDirectory own created
  · split at done
    · cases done
      exact Makes.refl target tree
    · cases done

/-- **Making a directory and those above it makes nothing else**, also where it fails. -/
theorem makes_createFrom (depth : Nat) (tree : FileTree) (path : Path)
    (own : path.text = "/" ∨ path.Front target) : Makes target tree (createFrom depth tree path).2 := by
  have onward {name parent : Path} (own : name.text = "/" ∨ name.Front target)
      (above : name.parent? = some parent) : parent.text = "/" ∨ parent.Front target := by
    rcases own with root | own
    · obtain ⟨text⟩ := name
      cases root
      cases above
    · exact own.parent above
  fun_induction createFrom depth tree path with
  | case1 => exact Makes.refl target _
  | case2 _ _ _ made created => exact makes_createDirectory own created
  | case3 _ _ _ _ _ above _ _ failed ih =>
    have parents := ih (onward own above)
    rwa [failed] at parents
  | case4 path _ _ depth parent above left done made ensured ih =>
    have parents := ih (onward own above)
    have grows : Grows (fun _ => False) tree (createFrom depth tree parent).2 :=
      createFrom_of_step (Grows.refl _) Grows.trans Grows.createDirectory depth tree parent
    rw [done] at parents grows
    exact parents.trans grows (makes_ensureDirectory own ensured)
  | case5 _ _ _ _ _ above _ done _ _ ih =>
    have parents := ih (onward own above)
    rwa [done] at parents
  | case6 => exact Makes.refl target _
  | case7 => exact Makes.refl target _
  | case8 => exact Makes.refl target _

theorem makes_createParents (tree : FileTree) (own : path.Front target) :
    Makes target tree (tree.createParents path).2 := by
  unfold createParents
  split
  · exact Makes.refl target tree
  · rename_i parent above
    exact makes_createFrom _ tree parent (own.parent above)

/-! ### Files -/

theorem makes_write (own : path.Front target) {content : Content}
    (done : tree.write path content = .ok written) : Makes target tree written := by
  obtain ⟨goal, found, rfl⟩ := target_of_write done
  exact makes_put own (aims_of_resolve found) fun spot apart => get?_put_of_ne apart tree _

/-- **Storing a file makes the file and directories above it**, and nothing else, also where it fails. -/
theorem makes_store (tree : FileTree) (open_end : path.text.toList.getLast? ≠ some '/')
    (content : Content) : Makes path tree (tree.store path content).2 := by
  have own : path.Front path := ⟨open_end, List.prefix_refl _⟩
  have parents := makes_createParents tree own
  have grows := Grows.createParents (fun _ => False) tree path
  unfold store
  split
  · rename_i failure left made
    rw [made] at parents
    exact parents
  · rename_i left made
    rw [made] at parents grows
    split
    · rename_i written done
      exact parents.trans grows (makes_write own done)
    · exact parents

end FileTree

end Localization

import Localization.Proofs.FileTree

/-
**Places that paths aim at.**

The place at which a path ends is settled by links alone: a missing directory or file can be made
without changing it. So two paths that lead to one place go on doing so while files are stored.

* `Rooted` — whatever stands in a tree stands in a directory.
* `Aims` — the place at which a path ends, if all that it goes through is there; `Leads.aims`.
* `Grows` — what storing files at certain places leaves as it is.
* `store_eq_ok`, `store_eq_error` — a stored file stands where its path aims, and nowhere else;
  `grows_store`.
-/

namespace Localization

namespace FileTree

/-! ### Rooted trees -/

/-- Whatever stands in a tree stands in a directory, and the working directory is one. -/
structure Rooted (tree : FileTree) : Prop where
  parent : ∀ {place entry}, tree.get? place = some entry →
    tree.get? place.dropLast = some .directory
  workingDirectory : tree.get? tree.workingDirectory = some .directory

instance (tree : FileTree) : Decidable tree.Rooted :=
  decidable_of_iff ((∀ entry ∈ tree.entries.entries,
      tree.get? entry.1.dropLast = some .directory) ∧
      tree.get? tree.workingDirectory = some .directory)
    ⟨fun ⟨parents, working⟩ =>
        ⟨fun {place entry} there => by
          unfold get? at there
          split at there
          · rename_i root
            rw [root]
            rfl
          · exact parents (place, entry) (SortedMap.get?_eq_some.mp there), working⟩,
      fun rooted => ⟨fun (place, entry) member => by
          by_cases root : place = []
          · rw [root]
            rfl
          · have there : tree.get? place = some entry := by
              unfold get?
              rw [if_neg root]
              exact SortedMap.get?_eq_some.mpr member
            exact rooted.parent there, rooted.workingDirectory⟩⟩

variable {tree before after : FileTree} {path : Path}

theorem get?_origin {place : Place} (inside : tree.get? place = some .directory) (text : String) :
    tree.get? (origin text place) = some .directory := by
  unfold origin
  split
  · rfl
  · exact inside

/-- A path that follows links does not end at one. -/
theorem Leads.not_link (rooted : tree.Rooted) {links : Nat} {place : Place} {parts : List String}
    {target : Target} (leads : tree.Leads true links place parts target)
    (start : ∀ link, tree.get? place ≠ some (.link link)) :
    ∀ link, target.occupant ≠ some (.link link) := by
  have directory {place : Place} (inside : tree.get? place = some .directory) (link : String) :
      tree.get? place ≠ some (.link link) := by
    rw [inside]
    nofun
  induction leads with
  | here there => exact fun link same => start link (there.trans same)
  | stay inside _ ih => exact ih (directory inside)
  | up inside _ ih => exact ih (directory (rooted.parent inside))
  | missing => exact nofun
  | last _ _ _ stop => cases stop
  | jump inside _ _ _ _ ih => exact ih (directory (get?_origin inside _))
  | down _ _ there noLink _ ih =>
    refine ih fun link same => noLink link ?_
    exact Option.some.inj (there.symm.trans same)

/-- Where a path leads to nothing, the directory for it is there. -/
theorem Leads.inside_of_absent {follow : Bool} {links : Nat} {place : Place} {parts : List String}
    {target : Target} (leads : tree.Leads follow links place parts target)
    (absent : target.occupant = none) : tree.get? target.place.dropLast = some .directory := by
  induction leads with
  | here => cases absent
  | stay _ _ ih => exact ih absent
  | up _ _ ih => exact ih absent
  | missing inside =>
    rw [Target.place, List.dropLast_concat]
    exact inside
  | last => cases absent
  | jump _ _ _ _ _ ih => exact ih absent
  | down _ _ _ _ _ ih => exact ih absent

theorem not_link_of_resolve (rooted : tree.Rooted) {target : Target}
    (found : tree.resolve path = .ok target) (link : String) :
    target.occupant ≠ some (.link link) := by
  refine (leads_of_resolve found).not_link rooted (fun link same => ?_) link
  rw [get?_origin rooted.workingDirectory] at same
  cases same

/-- The directory of a place that a path leads to is there. -/
theorem inside_of_resolve (rooted : tree.Rooted) {target : Target}
    (found : tree.resolve path = .ok target) :
    tree.get? target.place.dropLast = some .directory := by
  have leads := leads_of_resolve found
  cases there : target.occupant with
  | none => exact leads.inside_of_absent there
  | some entry => exact rooted.parent (leads.get?.1.trans there)

/-! ### Aims -/

/-- The parts of a path aim from a place at a goal. Links count, and it makes no difference whether
anything else is there. -/
inductive AimsFrom (tree : FileTree) : (place : Place) → (parts : List String) → (goal : Place) → Prop
  | here {place} : tree.AimsFrom place [] place
  | stay {place rest goal} (later : tree.AimsFrom place rest goal) :
    tree.AimsFrom place ("." :: rest) goal
  | up {place rest goal} (later : tree.AimsFrom place.dropLast rest goal) :
    tree.AimsFrom place (".." :: rest) goal
  | jump {place name rest target goal} (good : IsStep name)
      (there : tree.get? (place ++ [name]) = some (.link target))
      (later : tree.AimsFrom (origin target place) (FileTree.parts target ++ rest) goal) :
    tree.AimsFrom place (name :: rest) goal
  | down {place name rest goal} (good : IsStep name)
      (noLink : ∀ target, tree.get? (place ++ [name]) ≠ some (.link target))
      (later : tree.AimsFrom (place ++ [name]) rest goal) :
    tree.AimsFrom place (name :: rest) goal

/-- A path aims at a place. -/
def Aims (tree : FileTree) (path : Path) (goal : Place) : Prop :=
  tree.AimsFrom (origin path.text tree.workingDirectory) (parts path.text) goal

/-- **A path ends at the place that it aims at.** -/
theorem Leads.aims {links : Nat} {place : Place} {parts : List String} {target : Target}
    (leads : tree.Leads true links place parts target) : tree.AimsFrom place parts target.place := by
  induction leads with
  | here => exact .here
  | stay _ _ ih => exact .stay ih
  | up _ _ ih => exact .up ih
  | missing _ good absent =>
    refine .down good (fun target same => ?_) .here
    rw [absent] at same
    cases same
  | last _ _ _ stop => cases stop
  | jump _ good there _ _ ih => exact .jump good there ih
  | down _ good there noLink _ ih =>
    refine .down good (fun target same => noLink target ?_) ih
    exact Option.some.inj (there.symm.trans same)

theorem aims_of_resolve {target : Target} (found : tree.resolve path = .ok target) :
    tree.Aims path target.place :=
  (leads_of_resolve found).aims

/-- A path aims at one place. -/
theorem AimsFrom.unique {place first second : Place} {parts : List String}
    (aims : tree.AimsFrom place parts first) (again : tree.AimsFrom place parts second) :
    first = second := by
  induction aims with
  | here =>
    cases again
    rfl
  | stay _ ih =>
    generalize same : "." :: _ = all at again
    cases again with
    | here => cases same
    | stay later =>
      cases same
      exact ih later
    | up => exact absurd (List.cons.inj same).1 (by decide)
    | jump good => exact absurd (List.cons.inj same).1.symm good.notDot
    | down good => exact absurd (List.cons.inj same).1.symm good.notDot
  | up _ ih =>
    generalize same : ".." :: _ = all at again
    cases again with
    | here => cases same
    | stay => exact absurd (List.cons.inj same).1 (by decide)
    | up later =>
      cases same
      exact ih later
    | jump good => exact absurd (List.cons.inj same).1.symm good.notUp
    | down good => exact absurd (List.cons.inj same).1.symm good.notUp
  | jump good there _ ih =>
    cases again with
    | stay => exact absurd rfl good.notDot
    | up => exact absurd rfl good.notUp
    | jump _ same later =>
      rw [there] at same
      cases same
      exact ih later
    | down _ noLink => exact absurd there (noLink _)
  | down good noLink _ ih =>
    cases again with
    | stay => exact absurd rfl good.notDot
    | up => exact absurd rfl good.notUp
    | jump _ there => exact absurd there (noLink _)
    | down _ _ later => exact ih later

/-- Two paths aim at one place, so that a file there is found on both of them. -/
def Shares (tree : FileTree) (first second : Path) : Prop :=
  ∃ place, tree.Aims first place ∧ tree.Aims second place

/-- A file where the path aims is found on the path. It is not where the path goes through a missing
directory and back. -/
def Reached (tree : FileTree) (path : Path) : Prop :=
  ∀ place content stamp, tree.Aims path place → tree.get? place = some (.file content stamp) →
    tree.resolve path = .ok (.present place (.file content stamp))

theorem reached_of_resolve {target : Target} (found : tree.resolve path = .ok target) :
    tree.Reached path := by
  intro place content stamp aims there
  have here : target.place = place := (aims_of_resolve found).unique aims
  have same := (leads_of_resolve found).get?.1
  subst here
  rw [there] at same
  cases target with
  | absent place => cases same
  | present place entry =>
    cases same
    exact found

theorem AimsFrom.of_links
    (links : ∀ place target, after.get? place = some (.link target) ↔
      before.get? place = some (.link target))
    {place goal : Place} {parts : List String} (aims : before.AimsFrom place parts goal) :
    after.AimsFrom place parts goal := by
  induction aims with
  | here => exact .here
  | stay _ ih => exact .stay ih
  | up _ ih => exact .up ih
  | jump good there _ ih => exact .jump good ((links _ _).mpr there) ih
  | down good noLink _ ih =>
    exact .down good (fun target same => noLink target ((links _ _).mp same)) ih

theorem isFile_iff : tree.isFile path = true ↔
    ∃ place content stamp, tree.resolve path = .ok (.present place (.file content stamp)) := by
  unfold FileTree.isFile find
  cases tree.resolve path with
  | error error => simp
  | ok target =>
    cases target with
    | absent place => simp
    | present place entry => cases entry <;> simp

/-! ### Growing trees -/

/-- What storing files at certain places changes: links and directories stay, files stay files, and
files elsewhere stay as they are. -/
structure Grows (spots : Place → Prop) (before after : FileTree) : Prop where
  keeps : before.Keeps after
  links : ∀ {place target}, after.get? place = some (.link target) →
    before.get? place = some (.link target)
  elsewhere : ∀ {place}, ¬ spots place → ∀ {content stamp},
    after.get? place = some (.file content stamp) ↔ before.get? place = some (.file content stamp)
  files : ∀ {place content stamp}, before.get? place = some (.file content stamp) →
    ∃ content stamp, after.get? place = some (.file content stamp)
  rooted : before.Rooted → after.Rooted

namespace Grows

variable {first second third : FileTree} {spots others : Place → Prop}

theorem refl (spots : Place → Prop) (tree : FileTree) : Grows spots tree tree where
  keeps := ⟨rfl, id, id⟩
  links := id
  elsewhere _ := Iff.rfl
  files there := ⟨_, _, there⟩
  rooted := id

theorem trans (earlier : Grows spots first second) (later : Grows spots second third) :
    Grows spots first third where
  keeps :=
    { workingDirectory := later.keeps.workingDirectory.trans earlier.keeps.workingDirectory
      directory := fun there => later.keeps.directory (earlier.keeps.directory there)
      link := fun there => later.keeps.link (earlier.keeps.link there) }
  links there := earlier.links (later.links there)
  elsewhere other := (later.elsewhere other).trans (earlier.elsewhere other)
  files there := by
    obtain ⟨content, stamp, found⟩ := earlier.files there
    exact later.files found
  rooted good := later.rooted (earlier.rooted good)

theorem mono (grows : Grows spots before after) (more : ∀ place, spots place → others place) :
    Grows others before after :=
  { grows with elsewhere := fun other => grows.elsewhere fun spot => other (more _ spot) }

theorem aims (grows : Grows spots before after) {goal : Place} :
    after.Aims path goal ↔ before.Aims path goal := by
  unfold Aims
  rw [grows.keeps.workingDirectory]
  constructor
  · exact AimsFrom.of_links fun _ _ => ⟨fun there => grows.keeps.link there, fun there => grows.links there⟩
  · exact AimsFrom.of_links fun _ _ => ⟨fun there => grows.links there, fun there => grows.keeps.link there⟩

theorem shares (grows : Grows spots before after) {other : Path} :
    after.Shares path other ↔ before.Shares path other := by
  unfold Shares
  simp only [grows.aims]

/-- A file that is found on a path goes on being found there, with what it then holds. -/
theorem resolve (grows : Grows spots before after) {place : Place} {content now : Content}
    {stamp later : Nat} (found : before.resolve path = .ok (.present place (.file content stamp)))
    (there : after.get? place = some (.file now later)) :
    after.resolve path = .ok (.present place (.file now later)) :=
  grows.keeps.resolve found there

theorem isFile (grows : Grows spots before after) (found : before.isFile path = true) :
    after.isFile path = true := by
  obtain ⟨place, content, stamp, resolved⟩ := isFile_iff.mp found
  obtain ⟨now, later, there⟩ := grows.files (leads_of_resolve resolved).get?.1
  exact isFile_iff.mpr ⟨place, now, later, grows.resolve resolved there⟩

/-- **A directory, or a file at a spot, comes to stand in a directory.** -/
theorem ofEntry {place : Place} {entry : Entry}
    (same : ∀ other, after.get? other = if other = place then some entry else before.get? other)
    (working : after.workingDirectory = before.workingDirectory)
    (inside : before.get? place.dropLast = some .directory) (solid : place ≠ [])
    (free : before.get? place = none ∨ ∃ content stamp, before.get? place = some (.file content stamp))
    (fits : (before.get? place = none ∧ entry = .directory) ∨
      (spots place ∧ ∃ content stamp, entry = .file content stamp)) :
    Grows spots before after := by
  have noLink : ∀ target, entry ≠ .link target := by
    rintro target rfl
    rcases fits with ⟨-, same⟩ | ⟨-, _, _, same⟩ <;> cases same
  have stays {other : Place} {there : Entry} (known : before.get? other = some there)
      (noFile : ∀ content stamp, there ≠ .file content stamp) : after.get? other = some there := by
    rw [same, if_neg, known]
    rintro rfl
    rcases free with missing | ⟨content, stamp, file⟩
    · rw [missing] at known
      cases known
    · rw [file] at known
      exact noFile content stamp (Option.some.inj known).symm
  have apart : place.dropLast ≠ place := fun equal => by
    have shorter := congrArg List.length equal
    have positive := List.length_pos_iff.mpr solid
    rw [List.length_dropLast] at shorter
    omega
  refine ⟨⟨working, fun there => stays there nofun, fun there => stays there nofun⟩,
    fun {other target} there => ?_, fun {other} apartOf content stamp => ?_,
    fun {other content stamp} there => ?_, fun rooted => ⟨fun {other there} found => ?_, ?_⟩⟩
  · rw [same] at there
    split at there
    · exact absurd (Option.some.inj there) (noLink target)
    · exact there
  · rw [same]
    split
    · rename_i equal
      subst equal
      rcases fits with ⟨missing, rfl⟩ | ⟨spot, -⟩
      · rw [missing]
        exact ⟨nofun, nofun⟩
      · exact absurd spot apartOf
    · exact Iff.rfl
  · rw [same]
    split
    · rename_i equal
      subst equal
      rcases fits with ⟨missing, -⟩ | ⟨-, now, later, rfl⟩
      · rw [missing] at there
        cases there
      · exact ⟨now, later, rfl⟩
    · exact ⟨content, stamp, there⟩
  · rw [same] at found
    split at found
    · rename_i equal
      subst equal
      exact stays inside nofun
    · exact stays (rooted.parent found) nofun
  · rw [working]
    exact stays rooted.workingDirectory nofun

theorem createDirectory {made : FileTree} (done : tree.createDirectory path = .ok made) :
    Grows spots tree made := by
  unfold FileTree.createDirectory at done
  split at done
  · cases done
  · rename_i place found
    cases done
    have leads := leads_of_resolve found
    obtain ⟨missing, solid⟩ := leads.get?
    exact ofEntry (get?_put (solid rfl) .directory) rfl (leads.inside_of_absent rfl) (solid rfl)
      (.inl missing) (.inl ⟨missing, rfl⟩)
  · cases done

theorem createParents (spots : Place → Prop) (tree : FileTree) (path : Path) :
    Grows spots tree (tree.createParents path).2 :=
  createParents_of_step (refl spots) trans createDirectory tree path

end Grows

/-! ### Stored files -/

/-- A file that is put where a path leads stands there and is found on the path. -/
theorem grows_putFile (rooted : tree.Rooted) {target : Target}
    (found : tree.resolve path = .ok target) (free : target.occupant ≠ some .directory)
    (content : Content) :
    Grows (· = target.place) tree (tree.putFile target.place content) ∧
      ∃ stamp, (tree.putFile target.place content).resolve path =
        .ok (.present target.place (.file content stamp)) := by
  have leads := leads_of_resolve found
  have solid : target.place ≠ [] := by
    intro empty
    have there := leads.get?.1
    rw [empty] at there
    exact free there.symm
  have onlyFile : tree.get? target.place = none ∨
      ∃ content stamp, tree.get? target.place = some (.file content stamp) := by
    rw [leads.get?.1]
    cases there : target.occupant with
    | none => exact .inl rfl
    | some entry =>
      cases entry with
      | file content stamp => exact .inr ⟨content, stamp, rfl⟩
      | directory => exact absurd there free
      | link other => exact absurd there (not_link_of_resolve rooted found other)
  have grows : Grows (· = target.place) tree (tree.putFile target.place content) :=
    .ofEntry (get?_putFile solid content) rfl (inside_of_resolve rooted found) solid onlyFile
      (.inr ⟨rfl, content, tree.clock, rfl⟩)
  have there : (tree.putFile target.place content).get? target.place =
      some (.file content tree.clock) := by
    rw [get?_putFile solid, if_pos rfl]
  exact ⟨grows, tree.clock, grows.keeps.resolve found there⟩

/-- A written file stands where its path aims, and no other file changes. -/
theorem write_grows (rooted : tree.Rooted) {content : Content} {written : FileTree}
    (done : tree.write path content = .ok written) :
    ∃ place stamp, tree.Aims path place ∧ Grows (· = place) tree written ∧
      written.resolve path = .ok (.present place (.file content stamp)) := by
  unfold write at done
  split at done
  · cases done
  · rename_i place entry noDirectory found
    cases done
    have free : (Target.present place entry).occupant ≠ some .directory := by
      intro same
      cases same
      exact noDirectory rfl
    obtain ⟨grows, stamp, there⟩ := grows_putFile rooted found free content
    exact ⟨place, stamp, aims_of_resolve found, grows, there⟩
  · rename_i place found
    cases done
    obtain ⟨grows, stamp, there⟩ := grows_putFile rooted found nofun content
    exact ⟨place, stamp, aims_of_resolve found, grows, there⟩
  · cases done

/-- **A stored file stands where its path aims, and no other file changes.** -/
theorem store_eq_ok (rooted : tree.Rooted) {content : Content} {left : FileTree}
    (stored : tree.store path content = (.ok (), left)) :
    ∃ place stamp, tree.Aims path place ∧ Grows (· = place) tree left ∧
      left.resolve path = .ok (.present place (.file content stamp)) := by
  unfold store at stored
  split at stored
  · cases stored
  · rename_i middle made
    have parents (spots : Place → Prop) : Grows spots tree middle := by
      have grown := Grows.createParents spots tree path
      rw [made] at grown
      exact grown
    split at stored
    · rename_i written done
      cases stored
      obtain ⟨place, stamp, aims, grows, found⟩ :=
        write_grows ((parents fun _ => False).rooted rooted) done
      exact ⟨place, stamp, (parents (· = place)).aims.mp aims, (parents _).trans grows, found⟩
    · cases stored

/-- Where a file cannot be stored, no file changes. -/
theorem store_eq_error {content : Content} {failure : FileFailure} {left : FileTree}
    (failed : tree.store path content = (.error failure, left)) (spots : Place → Prop) :
    Grows spots tree left := by
  have parents := Grows.createParents spots tree path
  unfold store at failed
  split at failed
  · rename_i made
    cases failed
    rw [made] at parents
    exact parents
  · rename_i made
    rw [made] at parents
    split at failed
    · cases failed
    · cases failed
      exact parents

/-- Storing a file changes no other than that at which its path aims. -/
theorem grows_store (rooted : tree.Rooted) (path : Path) (content : Content) :
    Grows (tree.Aims path) tree (tree.store path content).2 := by
  cases stored : tree.store path content with
  | mk outcome left =>
    cases outcome with
    | error failure => exact store_eq_error stored _
    | ok done =>
      obtain ⟨place, stamp, aims, grows, -⟩ := store_eq_ok rooted stored
      exact grows.mono fun other here => here ▸ aims

/-! ### Found files -/

/-- A text is read on a path exactly if a file that holds it is found there. -/
theorem readText_eq_ok {text : String} :
    tree.readText path = .ok text ↔
      ∃ place stamp, tree.resolve path = .ok (.present place (.file (.text text) stamp)) := by
  constructor
  · intro held
    unfold readText read find at held
    cases found : tree.resolve path with
    | error error =>
      rw [found] at held
      cases held
    | ok target =>
      rw [found] at held
      cases target with
      | absent place => cases held
      | present place entry =>
        cases entry with
        | directory => cases held
        | link other => cases held
        | file content stamp =>
          cases content with
          | binary bytes => cases held
          | text other =>
            cases held
            exact ⟨place, stamp, rfl⟩
  · rintro ⟨place, stamp, found⟩
    exact readText_of_resolve found

end FileTree

end Localization

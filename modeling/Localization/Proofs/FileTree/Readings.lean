import Localization.Proofs.FileTree.Parents

/-
**What is read on a path while files are stored elsewhere.**

Storing files makes directories, so a path on which nothing was found may come to lead somewhere. It
goes on leading nowhere if no file stands where it aims and one could be stored there.

* `Misses` — a file stands where the path aims, but nothing is found on the path.
* `Grows.find_error` — an error goes on being the same error, unless nothing was found.
* `Grows.read_eq`, `Grows.read_eq_of_store` — what is read on a path while files are stored elsewhere.
* `Grows.not_misses` — no path comes to miss a file that was there before.
-/

namespace Localization

namespace FileTree

variable {tree after : FileTree} {path : Path} {spots : Place → Prop} {place : Place}

/-- A file stands where the path aims, but nothing is found on the path: it goes through a missing
directory and back. -/
structure Misses (tree : FileTree) (path : Path) (place : Place) : Prop where
  aims : tree.Aims path place
  file : ∃ content stamp, tree.get? place = some (.file content stamp)
  missing : tree.find path = .error .notFound

/-- A walk may stand here: at a directory or at a file. -/
def Footing (tree : FileTree) (place : Place) : Prop :=
  tree.get? place = some .directory ∨ ∃ content stamp, tree.get? place = some (.file content stamp)

theorem walkFrom_error (rooted : tree.Rooted) (grows : Grows spots tree after) {error : FileError}
    (known : error ≠ .notFound) {jump other : Place → List String → Except FileError Target}
    (jumps : ∀ place parts, tree.get? place = some .directory → jump place parts = .error error →
      other place parts = .error error)
    {parts : List String} (footing : tree.Footing place)
    (failed : tree.walkFrom true jump place parts = .error error) :
    after.walkFrom true other place parts = .error error := by
  induction parts generalizing place with
  | nil =>
    rw [walkFrom] at failed
    split at failed
    · cases failed
    · cases failed
      exact absurd rfl known
  | cons name rest ih =>
    rcases footing with inside | ⟨content, stamp, file⟩
    · rw [walkFrom, inside] at failed
      rw [walkFrom, grows.keeps.directory inside]
      dsimp only at failed ⊢
      split at failed
      · rename_i dot
        rw [if_pos dot]
        exact ih (.inl inside) failed
      · rename_i notDot
        rw [if_neg notDot]
        split at failed
        · rename_i up
          rw [if_pos up]
          exact ih (.inl (rooted.parent inside)) failed
        · rename_i notUp
          rw [if_neg notUp]
          split at failed
          · rename_i long
            rw [if_pos long]
            exact failed
          · rename_i short
            rw [if_neg short]
            cases there : tree.get? (place ++ [name]) with
            | none =>
              rw [there] at failed
              dsimp only at failed
              split at failed
              · cases failed
              · cases failed
                exact absurd rfl known
            | some entry =>
              rw [there] at failed
              cases entry with
              | file content stamp =>
                obtain ⟨now, later, found⟩ := grows.files there
                rw [found]
                exact ih (.inr ⟨content, stamp, there⟩) failed
              | directory =>
                rw [grows.keeps.directory there]
                exact ih (.inl there) failed
              | link target =>
                rw [grows.keeps.link there]
                dsimp only at failed ⊢
                rw [Bool.not_true, Bool.and_false, if_neg Bool.false_ne_true] at failed ⊢
                exact jumps _ _ (get?_origin inside target) failed
    · obtain ⟨now, later, found⟩ := grows.files file
      rw [walkFrom, file] at failed
      rw [walkFrom, found]
      exact failed

theorem walk_error (rooted : tree.Rooted) (grows : Grows spots tree after) {error : FileError}
    (known : error ≠ .notFound) {links : Nat} {parts : List String} (footing : tree.Footing place)
    (failed : tree.walk true links place parts = .error error) :
    after.walk true links place parts = .error error := by
  induction links generalizing place parts with
  | zero =>
    rw [walk_eq] at failed ⊢
    exact walkFrom_error rooted grows known (fun _ _ _ same => same) footing failed
  | succ links ih =>
    rw [walk_eq] at failed ⊢
    exact walkFrom_error rooted grows known (fun _ _ inside stuck => ih (.inl inside) stuck) footing failed

/-- An error goes on being the same error while files are stored, unless nothing was found. -/
theorem Grows.resolve_error (grows : Grows spots tree after) (rooted : tree.Rooted) {error : FileError}
    (known : error ≠ .notFound) (failed : tree.resolve path = .error error) :
    after.resolve path = .error error := by
  unfold FileTree.resolve at failed ⊢
  split at failed
  · rename_i nul
    rw [if_pos nul]
    exact failed
  · rename_i clean
    split at failed
    · -- The empty path leads nowhere, which is no known error.
      cases failed
      exact absurd rfl known
    · rename_i solid
      split at failed
      · rename_i long
        rw [if_neg clean, if_neg solid, if_pos long]
        exact failed
      · rename_i short
        rw [if_neg clean, if_neg solid, if_neg short, grows.keeps.workingDirectory]
        exact walk_error rooted grows known (.inl (get?_origin rooted.workingDirectory _)) failed

theorem find_eq_ok {entry : Entry} :
    tree.find path = .ok (place, entry) ↔ tree.resolve path = .ok (.present place entry) := by
  unfold find
  cases tree.resolve path with
  | error error => simp
  | ok target => cases target <;> simp

theorem find_eq_error {error : FileError} (known : error ≠ .notFound) :
    tree.find path = .error error ↔ tree.resolve path = .error error := by
  unfold find
  cases tree.resolve path with
  | error error => simp
  | ok target => cases target <;> simp [known.symm]

theorem Grows.find_error (grows : Grows spots tree after) (rooted : tree.Rooted) {error : FileError}
    (known : error ≠ .notFound) (failed : tree.find path = .error error) :
    after.find path = .error error :=
  (find_eq_error known).mpr (grows.resolve_error rooted known ((find_eq_error known).mp failed))

/-- A path that leads somewhere misses no file. -/
theorem not_misses_of_resolve {target : Target} (found : tree.resolve path = .ok target)
    (place : Place) : ¬ tree.Misses path place := by
  rintro ⟨aims, ⟨content, stamp, file⟩, missing⟩
  obtain rfl := (aims_of_resolve found).unique aims
  cases target with
  | present place entry => cases (find_eq_ok.mpr found).symm.trans missing
  | absent place => cases (leads_of_resolve found).get?.1.symm.trans file

/-- Paths that lead to different places share none. -/
theorem not_shares_of_resolve {other : Path} {first second : Target}
    (found : tree.resolve path = .ok first) (there : tree.resolve other = .ok second)
    (differs : first.place ≠ second.place) : ¬ tree.Shares path other := by
  rintro ⟨place, aims, again⟩
  exact differs (((aims_of_resolve found).unique aims).trans (again.unique (aims_of_resolve there)))

theorem read_of_missing (missing : tree.find path = .error .notFound) :
    tree.read path = .error .notFound := by
  rw [read, missing]

/-- **What is found on a path is read there as long as no file is stored where the path aims.** -/
theorem Grows.read_eq (grows : Grows spots tree after) (rooted : tree.Rooted)
    (untouched : ∀ place, tree.Aims path place → ¬ spots place)
    (found : tree.find path ≠ .error .notFound) : after.read path = tree.read path := by
  unfold FileTree.read
  cases there : tree.find path with
  | error error =>
    have known : error ≠ .notFound := by
      rintro rfl
      exact found there
    rw [grows.find_error rooted known there]
  | ok pair =>
    obtain ⟨place, entry⟩ := pair
    have leads := find_eq_ok.mp there
    cases entry with
    | file content stamp =>
      have stays := (grows.elsewhere (untouched place (aims_of_resolve leads))).mpr
        (leads_of_resolve leads).get?.1
      rw [find_eq_ok.mpr (grows.resolve leads stays)]
    | directory => rw [find_eq_ok.mpr (grows.keeps.resolve_directory leads)]
    | link target => exact absurd rfl (not_link_of_resolve rooted leads target)

/-- No text comes to be read on a path where nothing is found, as long as no file is stored where the
path aims and it misses none. -/
theorem Grows.readText_of_missing (grows : Grows spots tree after)
    (untouched : ∀ place, tree.Aims path place → ¬ spots place)
    (missing : tree.find path = .error .notFound) (seen : ∀ place, ¬ tree.Misses path place)
    (text : String) : after.readText path ≠ .ok text := by
  intro read
  obtain ⟨place, stamp, found⟩ := readText_eq_ok.mp read
  have aims := grows.aims.mp (aims_of_resolve found)
  have before := (grows.elsewhere (untouched place aims)).mp (leads_of_resolve found).get?.1
  exact seen place ⟨aims, ⟨_, stamp, before⟩, missing⟩

/-- **Nothing comes to be found on a path** where a file could be stored, as long as none is, unless
the path misses a file. -/
theorem Grows.find_missing (grows : Grows spots tree after) (rooted : tree.Rooted)
    (untouched : ∀ place, tree.Aims path place → ¬ spots place)
    (missing : tree.find path = .error .notFound) (seen : ∀ place, ¬ tree.Misses path place)
    {content : Content} (stored : (after.store path content).1 = .ok ()) :
    after.find path = .error .notFound := by
  have afterRooted := grows.rooted rooted
  obtain ⟨left, done⟩ : ∃ left, after.store path content = (.ok (), left) :=
    ⟨_, stored ▸ (Prod.eta _).symm⟩
  obtain ⟨place, stamp, aims, further, there⟩ := store_eq_ok afterRooted done
  cases now : after.find path with
  | error error =>
    by_cases known : error = .notFound
    · rw [known]
    · have stuck := further.resolve_error afterRooted known ((find_eq_error known).mp now)
      rw [there] at stuck
      cases stuck
  | ok pair =>
    obtain ⟨other, entry⟩ := pair
    have leads := find_eq_ok.mp now
    have here : other = place := (aims_of_resolve leads).unique aims
    subst here
    cases entry with
    | file content stamp =>
      -- The file was there before, where the path aimed already.
      have aimed := grows.aims.mp aims
      have before := (grows.elsewhere (untouched other aimed)).mp (leads_of_resolve leads).get?.1
      exact absurd ⟨aimed, ⟨content, stamp, before⟩, missing⟩ (seen other)
    | directory =>
      -- A directory stays one, so that no file could be stored.
      have stays := further.keeps.directory (leads_of_resolve leads).get?.1
      cases (leads_of_resolve there).get?.1.symm.trans stays
    | link target => exact absurd rfl (not_link_of_resolve afterRooted leads target)

theorem readText_congr (same : after.read path = tree.read path) :
    after.readText path = tree.readText path := by
  unfold readText
  rw [same]

/-- **What is read on a path stays the same** as long as no file is stored where the path aims, if one
could be stored there and the path misses none. -/
theorem Grows.read_eq_of_store (grows : Grows spots tree after) (rooted : tree.Rooted)
    (untouched : ∀ place, tree.Aims path place → ¬ spots place)
    (seen : ∀ place, ¬ tree.Misses path place)
    (storable : tree.find path = .error .notFound →
      ∃ content, (after.store path content).1 = .ok ()) :
    after.read path = tree.read path := by
  by_cases missing : tree.find path = .error .notFound
  · obtain ⟨content, stored⟩ := storable missing
    rw [read_of_missing missing,
      read_of_missing (grows.find_missing rooted untouched missing seen stored)]
  · exact grows.read_eq rooted untouched missing

/-- What is found on a path goes on being found there. -/
theorem Grows.find_ne_notFound (grows : Grows spots tree after) (rooted : tree.Rooted)
    (found : tree.find path ≠ .error .notFound) : after.find path ≠ .error .notFound := by
  intro missing
  cases there : tree.find path with
  | error error =>
    have known : error ≠ .notFound := by
      rintro rfl
      exact found there
    rw [grows.find_error rooted known there] at missing
    exact known (Except.error.inj missing)
  | ok pair =>
    obtain ⟨place, entry⟩ := pair
    have leads := find_eq_ok.mp there
    cases entry with
    | file content stamp =>
      obtain ⟨now, later, stays⟩ := grows.files (leads_of_resolve leads).get?.1
      cases (find_eq_ok.mpr (grows.resolve leads stays)).symm.trans missing
    | directory => cases (find_eq_ok.mpr (grows.keeps.resolve_directory leads)).symm.trans missing
    | link target => exact absurd rfl (not_link_of_resolve rooted leads target)

/-- A path does not come to miss a file that was there before. -/
theorem Grows.not_misses (grows : Grows spots tree after) (rooted : tree.Rooted)
    {content : Content} {stamp : Nat} (file : tree.get? place = some (.file content stamp))
    (seen : ¬ tree.Misses path place) : ¬ after.Misses path place := by
  rintro ⟨aims, -, missing⟩
  refine grows.find_ne_notFound rooted (fun absent => ?_) missing
  exact seen ⟨grows.aims.mp aims, ⟨content, stamp, file⟩, absent⟩

end FileTree

end Localization

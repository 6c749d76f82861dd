import Localization.Catalog.Merge

/-
**Look-ups in maps that are built from others.**

Every map that the library builds is known by its look-ups (`SortedMap.ext`), so each operation has
one lemma that says what a look-up in its result is.

* `get?_mapValues`, `get?_filter`, `get?_union` — the operations on maps.
* `get?_foldl_insert`, `ofList_of_sorted` — insertions of sorted entries one after the other.
* `SortedSet.mem_keys_ofList`, `SortedSet.ofList_keys` — sets of listed elements.
-/

namespace Localization

namespace SortedMap

variable {κ ν μ : Type} [StrictOrder κ]

theorem get?_mapValues (f : κ → ν → μ) (map : SortedMap κ ν) (key : κ) :
    (map.mapValues f).get? key = (map.get? key).map (f key) := by
  refine Option.ext fun image => ?_
  rw [get?_eq_some, Option.map_eq_some_iff]
  simp only [mapValues, List.mem_map, Prod.mk.injEq, Prod.exists]
  constructor
  · rintro ⟨other, value, member, rfl, rfl⟩
    exact ⟨value, get?_eq_some.mpr member, rfl⟩
  · rintro ⟨value, found, rfl⟩
    exact ⟨key, value, get?_eq_some.mp found, rfl, rfl⟩

theorem get?_filter (map : SortedMap κ ν) (test : κ → ν → Bool) (key : κ) :
    (map.filter test).get? key = (map.get? key).filter (test key) := by
  refine Option.ext fun value => ?_
  rw [get?_eq_some, Option.filter_eq_some_iff, get?_eq_some]
  simp [filter]

/-- A map has a key exactly if it has a value for it. -/
theorem contains_eq_true {map : SortedMap κ ν} {key : κ} :
    map.contains key = true ↔ key ∈ map.keys := by
  rw [mem_keys, contains, Option.isSome_iff_exists]

theorem contains_eq_false {map : SortedMap κ ν} {key : κ} :
    map.contains key = false ↔ map.get? key = none := by
  rw [contains, Option.isSome_eq_false_iff, Option.isNone_iff_eq_none]

theorem not_mem_keys {map : SortedMap κ ν} {key : κ} : key ∉ map.keys ↔ map.get? key = none := by
  rw [← contains_eq_true, Bool.not_eq_true, contains_eq_false]

/-- No key stands twice in the order of keys. -/
theorem keys_nodup (map : SortedMap κ ν) : map.keys.Nodup := by
  unfold keys List.Nodup
  rw [List.pairwise_map]
  exact map.sorted.imp StrictOrder.ne_of_lt

/-- The values are those of the keys. -/
theorem mem_values {map : SortedMap κ ν} {value : ν} :
    value ∈ map.values ↔ ∃ key, map.get? key = some value := by
  simp only [values, List.mem_map, get?_eq_some]
  constructor
  · rintro ⟨⟨key, other⟩, member, rfl⟩
    exact ⟨key, member⟩
  · rintro ⟨key, member⟩
    exact ⟨_, member, rfl⟩

/-- Changing the values to themselves changes nothing. -/
theorem mapValues_eq_self {f : κ → ν → ν} {map : SortedMap κ ν}
    (same : ∀ key value, map.get? key = some value → f key value = value) :
    map.mapValues f = map := by
  refine ext fun key => ?_
  rw [get?_mapValues]
  cases found : map.get? key with
  | none => rfl
  | some value => rw [Option.map_some, same key value found]

/-! ### Insertions one after the other -/

/-- A key before all others of a list is not among them. -/
theorem lookup_eq_none {key : κ} {entries : List (κ × ν)}
    (sorted : entries.Pairwise fun first second => first.1 < second.1)
    (later : ∀ entry ∈ entries, key < entry.1) : lookup key entries = none := by
  rw [Option.eq_none_iff_forall_ne_some]
  intro value found
  have member := (lookup_eq_some sorted).mp found
  exact StrictOrder.irrefl _ (later _ member)

section Insertions

variable [DecidableEq κ]

/-- Inserting sorted entries into a map gives their values, and the map's for the other keys. -/
theorem get?_foldl_insert {entries : List (κ × ν)}
    (sorted : entries.Pairwise fun first second => first.1 < second.1) (map : SortedMap κ ν)
    (key : κ) :
    (entries.foldl (fun map entry => map.insert entry.1 entry.2) map).get? key =
      (lookup key entries).or (map.get? key) := by
  induction entries generalizing map with
  | nil => rfl
  | cons head rest ih =>
    obtain ⟨least, others⟩ := List.pairwise_cons.mp sorted
    rw [List.foldl_cons, ih others, get?_insert, lookup]
    by_cases before : head.1 < key
    · rw [if_pos before, if_neg (StrictOrder.ne_of_lt before).symm]
    · rw [if_neg before]
      by_cases after : key < head.1
      · have missing : lookup key rest = none :=
          lookup_eq_none others fun entry member => StrictOrder.trans after (least entry member)
        rw [if_pos after, if_neg (StrictOrder.ne_of_lt after), missing]
      · have same := StrictOrder.connected after before
        subst same
        rw [if_neg after, if_pos rfl, lookup_eq_none others least]
        rfl

/-- **A union has the second map's values, and the first one's for the other keys.** -/
theorem get?_union (first second : SortedMap κ ν) (key : κ) :
    (first.union second).get? key = (second.get? key).or (first.get? key) :=
  get?_foldl_insert second.sorted first key

/-- A sorted list of entries is the map of its entries. -/
theorem ofList_of_sorted {entries : List (κ × ν)}
    (sorted : entries.Pairwise fun first second => first.1 < second.1) :
    ofList entries = ⟨entries, sorted⟩ := by
  refine ext fun key => ?_
  rw [ofList, get?_foldl_insert sorted, get?_empty, Option.or_none]
  rfl

end Insertions

end SortedMap

namespace SortedSet

variable {κ : Type} [StrictOrder κ]

/-- Sets with the same elements are equal. -/
theorem ext_keys {first second : SortedSet κ} (same : ∀ key, key ∈ first.keys ↔ key ∈ second.keys) :
    first = second := by
  refine SortedMap.ext fun key => Option.ext fun value => ?_
  cases value
  have here := same key
  simp only [SortedMap.mem_keys] at here
  constructor
  · intro found
    obtain ⟨⟨⟩, there⟩ := here.mp ⟨(), found⟩
    exact there
  · intro found
    obtain ⟨⟨⟩, there⟩ := here.mpr ⟨(), found⟩
    exact there

variable [DecidableEq κ]

theorem mem_keys_foldl_insert {elements : List κ} {set : SortedSet κ} {key : κ} :
    key ∈ (elements.foldl (fun set element => set.insert element ()) set).keys ↔
      key ∈ elements ∨ key ∈ set.keys := by
  induction elements generalizing set with
  | nil => simp
  | cons element rest ih =>
    rw [List.foldl_cons, ih, SortedMap.mem_keys_insert, List.mem_cons, or_assoc,
      or_left_comm]

theorem mem_keys_ofList {elements : List κ} {key : κ} :
    key ∈ (ofList elements).keys ↔ key ∈ elements := by
  rw [ofList, mem_keys_foldl_insert]
  simp [SortedMap.keys, SortedMap.empty]

/-- A set is made up of its elements. -/
theorem ofList_keys (set : SortedSet κ) : ofList set.keys = set :=
  ext_keys fun _ => mem_keys_ofList

end SortedSet

end Localization

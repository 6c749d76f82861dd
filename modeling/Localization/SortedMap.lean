/-
**Maps and sets in the order of their keys.**

* `SortedMap` — a finite map as the list of its entries by strictly increasing key, so that equal
  contents are equal maps (`SortedMap.ext`).
* `get?_insert`, `mem_keys_insert` — what an insertion changes.
* `SortedSet` — a finite set, as the keys of such a map.
-/

namespace Localization

/-- A strict linear order with a decision procedure. -/
class StrictOrder (κ : Type) extends LT κ where
  decide : DecidableRel (fun first second : κ => first < second)
  irrefl : ∀ key : κ, ¬ key < key
  trans : ∀ {first second third : κ}, first < second → second < third → first < third
  connected : ∀ {first second : κ}, ¬ first < second → ¬ second < first → first = second

namespace StrictOrder

instance {κ : Type} [StrictOrder κ] : DecidableRel (fun first second : κ => first < second) :=
  StrictOrder.decide

instance : StrictOrder String where
  decide := fun _ _ => inferInstance
  irrefl := String.lt_irrefl
  trans := String.lt_trans
  connected := fun notBefore notAfter =>
    String.le_antisymm (String.not_lt.mp notAfter) (String.not_lt.mp notBefore)

instance : StrictOrder Nat where
  decide := fun _ _ => inferInstance
  irrefl := Nat.lt_irrefl
  trans := Nat.lt_trans
  connected := fun notBefore notAfter => by omega

theorem ne_of_lt {κ : Type} [StrictOrder κ] {first second : κ} (before : first < second) :
    first ≠ second := by
  rintro rfl
  exact irrefl _ before

theorem asymm {κ : Type} [StrictOrder κ] {first second : κ} (before : first < second) :
    ¬ second < first :=
  fun after => irrefl _ (trans before after)

end StrictOrder

/-- A finite map, as its entries by strictly increasing key. -/
structure SortedMap (κ ν : Type) [StrictOrder κ] where
  entries : List (κ × ν)
  sorted : entries.Pairwise fun first second => first.1 < second.1

namespace SortedMap

variable {κ ν : Type} [StrictOrder κ]

instance [DecidableEq κ] [DecidableEq ν] : DecidableEq (SortedMap κ ν) := fun first second =>
  if same : first.entries = second.entries then
    isTrue (by cases first; cases second; cases same; rfl)
  else isFalse fun equal => same (by rw [equal])

/-- The map without entries. -/
def empty : SortedMap κ ν := ⟨[], .nil⟩

instance : Inhabited (SortedMap κ ν) := ⟨empty⟩

/-- The keys in order. -/
def keys (map : SortedMap κ ν) : List κ := map.entries.map (·.1)

/-- The values in the order of their keys. -/
def values (map : SortedMap κ ν) : List ν := map.entries.map (·.2)

/-- The number of entries. -/
def size (map : SortedMap κ ν) : Nat := map.entries.length

/-- The value of a key in a list of entries. -/
def lookup (key : κ) : List (κ × ν) → Option ν
  | [] => none
  | (other, value) :: rest =>
    if other < key then lookup key rest else if key < other then none else some value

/-- The value of a key. -/
def get? (map : SortedMap κ ν) (key : κ) : Option ν := lookup key map.entries

/-- The map has a value for the key. -/
def contains (map : SortedMap κ ν) (key : κ) : Bool := (map.get? key).isSome

/-- The entries with a value for the key put in place. -/
def place (key : κ) (value : ν) : List (κ × ν) → List (κ × ν)
  | [] => [(key, value)]
  | (other, old) :: rest =>
    if other < key then (other, old) :: place key value rest
    else if key < other then (key, value) :: (other, old) :: rest
    else (key, value) :: rest

theorem mem_place {key : κ} {value : ν} {entries : List (κ × ν)} {entry : κ × ν}
    (member : entry ∈ place key value entries) : entry = (key, value) ∨ entry ∈ entries := by
  induction entries with
  | nil => simpa [place] using member
  | cons head rest ih =>
    unfold place at member
    split at member
    · rcases List.mem_cons.mp member with rfl | inside
      · exact .inr List.mem_cons_self
      · rcases ih inside with same | inside
        · exact .inl same
        · exact .inr (List.mem_cons_of_mem _ inside)
    · split at member
      · exact List.mem_cons.mp member
      · rcases List.mem_cons.mp member with same | inside
        · exact .inl same
        · exact .inr (List.mem_cons_of_mem _ inside)

theorem place_sorted (key : κ) (value : ν) {entries : List (κ × ν)}
    (sorted : entries.Pairwise fun first second => first.1 < second.1) :
    (place key value entries).Pairwise fun first second => first.1 < second.1 := by
  induction entries with
  | nil => simp [place]
  | cons head rest ih =>
    obtain ⟨least, others⟩ := List.pairwise_cons.mp sorted
    unfold place
    split
    · rename_i earlier
      refine List.pairwise_cons.mpr ⟨fun entry member => ?_, ih others⟩
      rcases mem_place member with rfl | inside
      · exact earlier
      · exact least entry inside
    · rename_i notEarlier
      split
      · rename_i later
        refine List.pairwise_cons.mpr ⟨fun entry member => ?_, sorted⟩
        rcases List.mem_cons.mp member with rfl | inside
        · exact later
        · exact StrictOrder.trans later (least entry inside)
      · rename_i notLater
        have same := StrictOrder.connected notLater notEarlier
        exact List.pairwise_cons.mpr ⟨fun entry member => same ▸ least entry member, others⟩

/-- The map with a value for the key; an earlier value gives way. -/
def insert (map : SortedMap κ ν) (key : κ) (value : ν) : SortedMap κ ν :=
  ⟨place key value map.entries, place_sorted key value map.sorted⟩

/-- The map without the entries that fail a test. -/
def filter (map : SortedMap κ ν) (test : κ → ν → Bool) : SortedMap κ ν :=
  ⟨map.entries.filter fun entry => test entry.1 entry.2, map.sorted.filter _⟩

/-- The map without a key. -/
def erase [DecidableEq κ] (map : SortedMap κ ν) (key : κ) : SortedMap κ ν :=
  map.filter fun other _ => other != key

/-- The map with every value replaced by its image. -/
def mapValues {μ : Type} (f : κ → ν → μ) (map : SortedMap κ ν) : SortedMap κ μ :=
  ⟨map.entries.map fun entry => (entry.1, f entry.1 entry.2), by
    simpa [List.pairwise_map] using map.sorted⟩

/-- The map of a list of entries; of equal keys the last one counts. -/
def ofList (entries : List (κ × ν)) : SortedMap κ ν :=
  entries.foldl (fun map entry => map.insert entry.1 entry.2) empty

theorem lookup_place (key other : κ) (value : ν) {entries : List (κ × ν)}
    (sorted : entries.Pairwise fun first second => first.1 < second.1) :
    lookup other (place key value entries) =
      if other < key ∨ key < other then lookup other entries else some value := by
  induction entries with
  | nil =>
    simp only [place, lookup]
    by_cases later : key < other
    · simp [later]
    · by_cases earlier : other < key <;> simp [later, earlier]
  | cons head rest ih =>
    obtain ⟨least, others⟩ := List.pairwise_cons.mp sorted
    obtain ⟨first, old⟩ := head
    unfold place
    split
    · rename_i before
      unfold lookup
      rw [ih others]
      by_cases earlier : first < other
      · simp [earlier]
      · have firstLast : other < key := by
          by_cases back : other < first
          · exact StrictOrder.trans back before
          · exact StrictOrder.connected back earlier ▸ before
        simp [earlier, firstLast]
    · rename_i notBefore
      split
      · rename_i after
        simp only [lookup]
        by_cases later : key < other
        · simp [later]
        · by_cases earlier : other < key
          · have back := StrictOrder.trans earlier after
            simp [later, earlier, back, StrictOrder.asymm back]
          · simp [later, earlier]
      · rename_i notAfter
        have same := StrictOrder.connected notAfter notBefore
        subst same
        simp only [lookup]
        by_cases later : key < other
        · simp [later]
        · by_cases earlier : other < key <;> simp [later, earlier]

/-- **An insertion changes the value of its key and of no other.** -/
theorem get?_insert [DecidableEq κ] (map : SortedMap κ ν) (key other : κ) (value : ν) :
    (map.insert key value).get? other = if other = key then some value else map.get? other := by
  unfold get? insert
  rw [lookup_place key other value map.sorted]
  by_cases same : other = key
  · subst same
    simp [StrictOrder.irrefl]
  · have apart : other < key ∨ key < other := by
      refine Decidable.byContradiction fun neither => same ?_
      exact StrictOrder.connected (fun before => neither (.inl before))
        (fun after => neither (.inr after))
    rw [if_pos apart, if_neg same]

theorem lookup_eq_some {key : κ} {value : ν} {entries : List (κ × ν)}
    (sorted : entries.Pairwise fun first second => first.1 < second.1) :
    lookup key entries = some value ↔ (key, value) ∈ entries := by
  induction entries with
  | nil => simp [lookup]
  | cons head rest ih =>
    obtain ⟨least, others⟩ := List.pairwise_cons.mp sorted
    obtain ⟨first, old⟩ := head
    unfold lookup
    by_cases before : first < key
    · rw [if_pos before, ih others]
      have different : key ≠ first := (StrictOrder.ne_of_lt before).symm
      simp [different]
    · rw [if_neg before]
      by_cases after : key < first
      · rw [if_pos after]
        simp only [reduceCtorEq, List.mem_cons, Prod.mk.injEq, false_iff, not_or, not_and]
        refine ⟨fun same => absurd same (StrictOrder.ne_of_lt after), fun inside => ?_⟩
        exact StrictOrder.asymm after (least _ inside)
      · rw [if_neg after]
        have same := StrictOrder.connected after before
        subst same
        refine ⟨fun equal => ?_, fun member => ?_⟩
        · cases equal
          exact List.mem_cons_self
        · rcases List.mem_cons.mp member with equal | inside
          · cases equal
            rfl
          · exact absurd (least _ inside) (StrictOrder.irrefl _)

/-- A key has a value exactly if the two make up an entry. -/
theorem get?_eq_some {map : SortedMap κ ν} {key : κ} {value : ν} :
    map.get? key = some value ↔ (key, value) ∈ map.entries :=
  lookup_eq_some map.sorted

theorem eq_of_mem_iff {first second : List (κ × ν)}
    (firstSorted : first.Pairwise fun a b => a.1 < b.1)
    (secondSorted : second.Pairwise fun a b => a.1 < b.1)
    (same : ∀ entry, entry ∈ first ↔ entry ∈ second) : first = second := by
  induction first generalizing second with
  | nil =>
    cases second with
    | nil => rfl
    | cons head rest => exact absurd ((same head).mpr List.mem_cons_self) (by simp)
  | cons head rest ih =>
    cases second with
    | nil => exact absurd ((same head).mp List.mem_cons_self) (by simp)
    | cons other others =>
      obtain ⟨least, restSorted⟩ := List.pairwise_cons.mp firstSorted
      obtain ⟨otherLeast, othersSorted⟩ := List.pairwise_cons.mp secondSorted
      have heads : head = other := by
        rcases List.mem_cons.mp ((same head).mp List.mem_cons_self) with equal | inside
        · exact equal
        · rcases List.mem_cons.mp ((same other).mpr List.mem_cons_self) with equal | within
          · exact equal.symm
          · exact absurd (otherLeast _ inside) (StrictOrder.asymm (least _ within))
      subst heads
      refine congrArg _ (ih restSorted othersSorted fun entry =>
        ⟨fun member => ?_, fun member => ?_⟩)
      · rcases List.mem_cons.mp ((same entry).mp (List.mem_cons_of_mem _ member)) with rfl | inside
        · exact absurd (least _ member) (StrictOrder.irrefl _)
        · exact inside
      · rcases List.mem_cons.mp ((same entry).mpr (List.mem_cons_of_mem _ member)) with rfl | inside
        · exact absurd (otherLeast _ member) (StrictOrder.irrefl _)
        · exact inside

/-- **Maps with the same values are equal.** -/
theorem ext {first second : SortedMap κ ν} (same : ∀ key, first.get? key = second.get? key) :
    first = second := by
  have entries : first.entries = second.entries := by
    refine eq_of_mem_iff first.sorted second.sorted fun (key, value) => ?_
    rw [← get?_eq_some, ← get?_eq_some, same]
  cases first
  cases second
  cases entries
  rfl

theorem get?_empty (key : κ) : (empty : SortedMap κ ν).get? key = none := rfl

/-- The keys are those with a value. -/
theorem mem_keys {map : SortedMap κ ν} {key : κ} :
    key ∈ map.keys ↔ ∃ value, map.get? key = some value := by
  simp only [keys, List.mem_map, get?_eq_some]
  constructor
  · rintro ⟨⟨other, value⟩, member, rfl⟩
    exact ⟨value, member⟩
  · rintro ⟨value, member⟩
    exact ⟨_, member, rfl⟩

theorem mem_keys_insert [DecidableEq κ] {map : SortedMap κ ν} {key other : κ} {value : ν} :
    other ∈ (map.insert key value).keys ↔ other = key ∨ other ∈ map.keys := by
  simp only [mem_keys, get?_insert]
  by_cases same : other = key <;> simp [same]

end SortedMap

/-- A finite set, in the order of its elements. -/
abbrev SortedSet (κ : Type) [StrictOrder κ] := SortedMap κ Unit

namespace SortedSet

variable {κ : Type} [StrictOrder κ]

/-- The set of the elements of a list. -/
def ofList (elements : List κ) : SortedSet κ :=
  elements.foldl (fun set element => set.insert element ()) SortedMap.empty

end SortedSet

end Localization

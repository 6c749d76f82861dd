import Localization.Proofs.Cache.History

/-
**What a get of one key does to the others.**

A key gets its slot before its value is built, and in a full cache this takes the place of the slot of
the key that was asked for longest ago, whatever comes of the building.

* `Cache.Displaces` — a get of a key takes the place of the slot of another.
* `Cache.stored?_fetch` — no other slot changes.
* `Cache.kept_of_get` — the values that go on being served after a get of another key.
-/

namespace Localization

namespace Cache

variable {ω ε α : Type} {cache : Cache α} {key other : String}

/-- The slot of another key makes room for that of a key: the cache is full, the key has no slot, and
the other one was asked for longest ago. -/
def Displaces (cache : Cache α) (key other : String) : Prop :=
  cache.size = cache.policy.capacity ∧ key ∉ cache.keys ∧ cache.keys.getLast? = some other

instance (cache : Cache α) (key other : String) : Decidable (cache.Displaces key other) := by
  unfold Displaces
  infer_instance

theorem lookup_filter_of_ne (differs : other ≠ key) (slots : List (String × Option (Stamped α))) :
    (slots.filter (·.1 ≠ key)).lookup other = slots.lookup other := by
  induction slots with
  | nil => rfl
  | cons slot rest ih =>
    obtain ⟨name, held⟩ := slot
    by_cases same : name = key
    · subst same
      rw [List.filter_cons_of_neg (by simp), ih, List.lookup_cons, beq_false_of_ne differs]
    · rw [List.filter_cons_of_pos (by simpa using same), List.lookup_cons, List.lookup_cons, ih]

/-- The last slot of a full cache is that of the key that was asked for longest ago. -/
theorem lookup_dropLast (distinct : cache.keys.Nodup) (other : String) :
    cache.slots.dropLast.lookup other =
      if cache.keys.getLast? = some other then none else cache.slots.lookup other := by
  rcases List.eq_nil_or_concat cache.slots with none | ⟨front, ⟨name, held⟩, split⟩
  · simp [keys, none]
  · rw [List.concat_eq_append] at split
    have names : cache.keys = front.map (·.1) ++ [name] := by
      rw [keys, split, List.map_append]
      rfl
    rw [names] at distinct
    rw [names, split, List.dropLast_concat, List.getLast?_concat, List.lookup_append]
    by_cases same : name = other
    · subst same
      rw [if_pos rfl, lookup_eq_none]
      intro slot member
      have apart := (List.nodup_append.mp distinct).2.2
      exact apart name (List.mem_map_of_mem member) name (List.mem_singleton_self name) rfl
    · have last : List.lookup other [(name, held)] = none := by
        rw [List.lookup_cons, beq_false_of_ne (Ne.symm same)]
        rfl
      rw [if_neg (by simpa using same), last, Option.or_none]

/-- **Asking for a key changes no other slot**, but one may make room. -/
theorem lookup_touch (distinct : cache.keys.Nodup) (small : cache.size ≤ cache.policy.capacity)
    (differs : other ≠ key) :
    (cache.touch key).slots.lookup other =
      if cache.Displaces key other then none else cache.slots.lookup other := by
  unfold touch
  cases found : cache.slots.lookup key with
  | some slot =>
    have held : ¬ cache.Displaces key other := fun ⟨_, absent, _⟩ =>
      absent (mem_keys.mpr ⟨slot, mem_of_lookup found⟩)
    rw [if_neg held]
    dsimp only
    rw [List.lookup_cons, beq_false_of_ne differs]
    exact lookup_filter_of_ne differs cache.slots
  | none =>
    dsimp only
    rw [List.lookup_cons, beq_false_of_ne differs]
    dsimp only
    have absent : key ∉ cache.keys := fun member => by
      obtain ⟨slot, inside⟩ := mem_keys.mp member
      exact lookup_eq_none.mp found slot inside
    by_cases full : cache.size = cache.policy.capacity
    · have last : cache.slots.take (cache.policy.capacity - 1) = cache.slots.dropLast := by
        rw [← full, size, List.dropLast_eq_take]
      rw [last, lookup_dropLast distinct]
      simp only [Displaces, full, absent, not_false_eq_true, true_and]
    · have all : cache.slots.take (cache.policy.capacity - 1) = cache.slots := by
        refine List.take_of_length_le ?_
        have more : cache.slots.length < cache.policy.capacity := Nat.lt_of_le_of_ne small full
        omega
      rw [all, if_neg fun ⟨whole, _⟩ => full whole]

/-- **A get of a key changes no other value that may serve**, but one may make room, whatever comes of
the building. -/
theorem stored?_fetch (distinct : cache.keys.Nodup) (small : cache.size ≤ cache.policy.capacity)
    (differs : other ≠ key) (asked ready now : Nat) (build : Unit → BuildResult ε α) :
    (cache.fetch asked ready key build).2.stored? now other =
      if cache.Displaces key other then none else cache.stored? now other := by
  have touched : (cache.touch key).stored? now other =
      if cache.Displaces key other then none else cache.stored? now other := by
    unfold stored? isFresh
    rw [lookup_touch distinct small differs, policy_touch]
    split <;> rfl
  have front (stamped : Stamped α) :
      ((cache.touch key).store key stamped).stored? now other = (cache.touch key).stored? now other := by
    obtain ⟨rest, slots, -⟩ := cache.exists_touch key small
    unfold stored? isFresh store
    rw [slots]
    dsimp only [List.tail_cons]
    rw [List.lookup_cons, List.lookup_cons, beq_false_of_ne differs]
  unfold fetch
  dsimp only
  cases cache.stored? asked key with
  | some value => exact touched
  | none =>
    dsimp only
    cases build () with
    | built value => exact (front _).trans touched
    | failed error => exact touched
    | aborted => exact touched

/-! ### Values that are kept for ever -/

/-- Without a time to live, a value serves at any time if it serves at one. -/
theorem stored?_of_endless (endless : cache.policy.timeToLive = none) (now later : Nat) :
    cache.stored? now key = cache.stored? later key := by
  unfold stored? isFresh
  rw [endless]

/-- **What a get of another key leaves of a value that is served.** It goes on being served without
its builder, unless its slot had to make room. Then its builder is asked again. This is so whether the
other value is built, or its building fails or stops. -/
theorem kept_of_get (clock : ω → Nat) (policy : CachePolicy) (endless : policy.timeToLive = none)
    (calls : List (Call ω ε α)) {kept other : String} (differs : kept ≠ other) {value : α}
    {asker : StateM ω (BuildResult ε α)} {now : ω} {touched : Cache α}
    (served : ((empty policy).after clock calls).fetchIn clock kept asker now =
      ((.stored value, touched), now)) (build : StateM ω (BuildResult ε α)) (world : ω) :
    let cache : Cache α := (empty policy).after clock calls
    let left := (cache.answer clock (.get other build world)).2
    (¬ cache.Displaces other kept → ∀ (again : StateM ω (BuildResult ε α)) (later : ω),
      ∃ after, left.fetchIn clock kept again later = ((.stored value, after), later)) ∧
    (cache.Displaces other kept → ∀ (again : StateM ω (BuildResult ε α)) (later : ω),
      ∃ after, left.fetchIn clock kept again later = ((.fresh (again later).1, after), (again later).2)) := by
  intro cache left
  have tracks := (tracks_empty (ω := ω) (ε := ε) (α := α) clock policy).run calls
  have lasting : left.policy.timeToLive = none := by
    rw [(tracks.answer (.get other build world)).chosen, endless]
  have held : cache.stored? (clock now) kept = some value := by
    rcases fetchIn_cases clock cache kept asker now with ⟨own, after, found, same⟩ | ⟨after, -, same⟩
    · cases served.symm.trans same
      exact found
    · cases served.symm.trans same
  have behind : left.stored? (clock now) kept = if cache.Displaces other kept then none else some value := by
    show (cache.answer clock (.get other build world)).2.stored? (clock now) kept = _
    rw [← held, answer, fetchIn_eq]
    exact stored?_fetch tracks.distinct (tracks.chosen.symm ▸ tracks.small) differs _ _ _ _
  constructor
  · intro room again later
    rw [if_neg room, stored?_of_endless lasting _ (clock later)] at behind
    rcases fetchIn_cases clock left kept again later with ⟨own, after, found, same⟩ | ⟨after, found, -⟩
    · cases behind.symm.trans found
      exact ⟨after, same⟩
    · cases behind.symm.trans found
  · intro full again later
    rw [if_pos full, stored?_of_endless lasting _ (clock later)] at behind
    rcases fetchIn_cases clock left kept again later with ⟨own, after, found, -⟩ | ⟨after, -, same⟩
    · cases behind.symm.trans found
    · exact ⟨after, same⟩

/-- A builder that counts how often it was asked. -/
def counting : StateM Nat (BuildResult Unit Nat) := fun count => (.built (count + 1), count + 1)

/-- A builder that counts how often it was asked, and fails. -/
def failing : StateM Nat (BuildResult Unit Nat) := fun count => (.failed (), count + 1)

/-- A cache in which one value was built. -/
def sample (capacity : Nat) (positive : 0 < capacity) : Cache Nat :=
  (empty ⟨capacity, none, positive⟩).after (fun _ => 0) [.get "fr" counting 0]

/-- There is room for a second key. -/
theorem kept_of_get_twoSlots :
    ∃ after, ((sample 2 (by decide)).answer (fun _ => 0) (.get "de" failing 1)).2.fetchIn (fun _ => 0)
      "fr" counting 2 = ((.stored 1, after), 2) := by
  have served : (sample 2 (by decide)).fetchIn (fun _ => 0) "fr" counting 1 =
      ((.stored 1, sample 2 (by decide)), 1) := rfl
  exact (kept_of_get (fun _ => 0) _ rfl [.get "fr" counting 0] (by decide) served failing 1).1
    (by decide) counting 2

/-- **A building that fails can take a value from another key**: where there is room for one key only,
the value that was served before has to be built again. -/
theorem get_displaced_by_failure :
    let cache := sample 1 (by decide)
    let left := (cache.answer (fun _ => 0) (.get "de" failing 1)).2
    ((cache.fetchIn (fun _ => 0) "fr" counting 1).1.1 = .stored 1 ∧
      (cache.fetchIn (fun _ => 0) "fr" counting 1).2 = 1) ∧
    (left.fetchIn (fun _ => 0) "fr" counting 2).1.1 = .fresh (.built 3) ∧
      (left.fetchIn (fun _ => 0) "fr" counting 2).2 = 3 :=
  ⟨⟨rfl, rfl⟩, rfl, rfl⟩

end Cache

end Localization

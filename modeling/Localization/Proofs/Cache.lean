import Localization.Cache

/-
**What a cache keeps.**

* `Cache.exists_touch` — the slots once a key was asked for: its own in front, and others that were
  there.
* `Cache.All` — something holds of every value that a cache keeps; `Cache.All.fetch`.
* `Cache.keeps_fetch` — a value that is kept or built is kept (`Cache.Keeps`).
-/

namespace Localization

namespace Cache

variable {ε α : Type} {holds : String → α → Prop} {cache : Cache α} {key : String} {now : Nat}

theorem mem_of_lookup {slots : List (String × Option (Stamped α))} {slot : Option (Stamped α)}
    (found : slots.lookup key = some slot) : (key, slot) ∈ slots := by
  induction slots with
  | nil => cases found
  | cons first rest ih =>
    obtain ⟨other, own⟩ := first
    rw [List.lookup_cons] at found
    split at found
    · rename_i same
      cases found
      rw [beq_iff_eq.mp same]
      exact List.mem_cons_self
    · exact List.mem_cons_of_mem _ (ih found)

/-- A key that has no slot is looked up in vain. -/
theorem lookup_eq_none {slots : List (String × Option (Stamped α))} :
    slots.lookup key = none ↔ ∀ slot, (key, slot) ∉ slots := by
  rw [List.lookup_eq_none_iff]
  constructor
  · intro differs slot member
    exact absurd (differs _ member) (by simp)
  · rintro missing ⟨other, slot⟩ member
    rw [bne_iff_ne]
    rintro rfl
    exact missing slot member

theorem mem_keys : key ∈ cache.keys ↔ ∃ slot, (key, slot) ∈ cache.slots := by
  simp [keys]

/-- **The slots once a key was asked for.** Its own is in front, new and empty if it had none, and the
others were there before. There are no more than the capacity. -/
theorem exists_touch (cache : Cache α) (key : String) (small : cache.size ≤ cache.policy.capacity) :
    ∃ rest, cache.touch key = { cache with slots := (key, (cache.slots.lookup key).join) :: rest } ∧
      rest.Sublist cache.slots ∧ (∀ slot, (key, slot) ∉ rest) ∧
      rest.length < cache.policy.capacity := by
  have positive := cache.policy.capacity_pos
  unfold touch
  cases found : cache.slots.lookup key with
  | some slot =>
    have shorter : (cache.others key).length < cache.slots.length :=
      List.length_filter_lt_length_iff_exists.mpr ⟨_, mem_of_lookup found, by simp⟩
    refine ⟨cache.others key, rfl, List.filter_sublist, fun other member => ?_, ?_⟩
    · simpa using (List.mem_filter.mp member).2
    · exact Nat.lt_of_lt_of_le shorter small
  | none =>
    refine ⟨_, rfl, List.take_sublist _ _, fun other member => ?_, ?_⟩
    · exact lookup_eq_none.mp found other (List.mem_of_mem_take member)
    · rw [List.length_take]
      omega

/-- Something holds of every value that a cache keeps. -/
def All (holds : String → α → Prop) (cache : Cache α) : Prop :=
  ∀ key stamped, (key, some stamped) ∈ cache.slots → holds key stamped.value

theorem all_empty (holds : String → α → Prop) (policy : CachePolicy) :
    All holds (empty policy) := nofun

theorem All.touch (all : cache.All holds) (key : String) : (cache.touch key).All holds := by
  unfold Cache.touch
  split
  · rename_i slot found
    intro other stamped member
    rcases List.mem_cons.mp member with same | later
    · exact all other stamped (same ▸ mem_of_lookup found)
    · exact all other stamped (List.mem_filter.mp later).1
  · intro other stamped member
    rcases List.mem_cons.mp member with same | later
    · cases same
    · exact all other stamped (List.mem_of_mem_take later)

theorem All.store (all : cache.All holds) {stamped : Stamped α} (own : holds key stamped.value) :
    (cache.store key stamped).All holds := by
  intro other held member
  rcases List.mem_cons.mp member with same | later
  · cases same
    exact own
  · exact all other held (List.mem_of_mem_tail later)

theorem All.stored (all : cache.All holds) {value : α} (found : cache.stored? now key = some value) :
    holds key value := by
  unfold stored? at found
  simp only [Option.bind_eq_bind, Option.bind_eq_some_iff] at found
  obtain ⟨slot, inside, stamped, rfl, fresh⟩ := found
  split at fresh
  · cases fresh
    exact all key stamped (mem_of_lookup inside)
  · cases fresh

/-- **What holds of every value that is built goes on holding of every value**, and of the one that is
answered. -/
theorem All.fetch (all : cache.All holds) (asked ready : Nat) (key : String)
    (build : Unit → BuildResult ε α) (builds : ∀ value, build () = .built value → holds key value) :
    (cache.fetch asked ready key build).2.All holds ∧
      ((∃ value, (cache.fetch asked ready key build).1 = .stored value ∧ holds key value) ∨
        (cache.fetch asked ready key build).1 = .fresh (build ())) := by
  unfold Cache.fetch
  dsimp only
  cases found : cache.stored? asked key with
  | some value => exact ⟨all.touch key, .inl ⟨value, rfl, all.stored found⟩⟩
  | none =>
    dsimp only
    cases built : build () with
    | built value => exact ⟨(all.touch key).store (builds value built), .inr rfl⟩
    | failed error => exact ⟨all.touch key, .inr rfl⟩
    | aborted => exact ⟨all.touch key, .inr rfl⟩

/-! ### Kept values -/

/-- A value is kept for a key. -/
def Keeps (cache : Cache α) (key : String) : Prop :=
  ∃ stamped, cache.slots.lookup key = some (some stamped)

theorem lookup_front (slot : Option (Stamped α)) (slots : List (String × Option (Stamped α))) :
    ((key, slot) :: slots).lookup key = some slot := by
  rw [List.lookup_cons, beq_self_eq_true]

theorem Keeps.stored? (keeps : cache.Keeps key) (endless : cache.policy.timeToLive = none) (now : Nat) :
    ∃ value, cache.stored? now key = some value := by
  obtain ⟨stamped, held⟩ := keeps
  refine ⟨stamped.value, ?_⟩
  unfold Cache.stored? isFresh
  rw [held, endless]
  rfl

theorem policy_touch (cache : Cache α) (key : String) : (cache.touch key).policy = cache.policy := by
  unfold touch
  cases cache.slots.lookup key <;> rfl

theorem policy_fetch (cache : Cache α) (asked ready : Nat) (key : String)
    (build : Unit → BuildResult ε α) :
    (cache.fetch asked ready key build).2.policy = cache.policy := by
  unfold fetch
  cases cache.stored? asked key with
  | some value => exact policy_touch cache key
  | none =>
    dsimp only
    cases build () with
    | built value => exact policy_touch cache key
    | failed error => exact policy_touch cache key
    | aborted => exact policy_touch cache key

/-- A value that is kept or built is kept. -/
theorem keeps_fetch (endless : cache.policy.timeToLive = none) (asked ready : Nat)
    (build : Unit → BuildResult ε α) (given : cache.Keeps key ∨ ∃ value, build () = .built value) :
    (cache.fetch asked ready key build).2.Keeps key := by
  unfold fetch
  cases found : cache.stored? asked key with
  | some value =>
    unfold Cache.stored? at found
    simp only [Option.bind_eq_bind, Option.bind_eq_some_iff] at found
    obtain ⟨slot, held, stamped, rfl, -⟩ := found
    refine ⟨stamped, ?_⟩
    dsimp only
    rw [touch, held]
    exact lookup_front _ _
  | none =>
    rcases given with keeps | ⟨value, built⟩
    · obtain ⟨value, there⟩ := keeps.stored? endless asked
      cases found.symm.trans there
    · dsimp only
      rw [built]
      exact ⟨⟨value, ready⟩, lookup_front _ _⟩

end Cache

end Localization

import Mathlib.Data.Finset.Card
import Localization.Proofs.Cache.Displacing

/-
**Keys that were asked for a short while ago.**

Slots stand in the order in which their keys were asked for last. Between two gets of a key, only the keys
that were asked for since then stand in front of it. So its value stays as long as there are fewer of them
than slots, whatever comes of their gets and whatever else is forgotten.

* `Cache.keys_fetch` — the order of the keys behind a get.
* `Cache.Recent` — a value is kept for a key, and only certain other keys were asked for since;
  `Recent.answer`, `Recent.run`.
* `Cache.get_recent` — the second get of a key that fewer others came between than the capacity.
-/

namespace Localization

namespace Cache

variable {ω ε α : Type} {clock : ω → Nat} {policy : CachePolicy} {past : List (Event ω ε α)}
  {cache : Cache α} {key other : String} {value : α}

/-! ### The order of the keys -/

theorem lookup_isSome_iff : (cache.slots.lookup key).isSome ↔ key ∈ cache.keys := by
  rw [← Option.ne_none_iff_isSome, Ne, lookup_eq_none, mem_keys]
  simp

/-- The keys behind a get of a key: this one in front, and the others as before, where in a full cache the
last one makes room for a new key. -/
def keysBehind (cache : Cache α) (key : String) : List String :=
  key :: if key ∈ cache.keys then cache.keys.filter (· ≠ key)
    else cache.keys.take (cache.policy.capacity - 1)

theorem keys_touch (cache : Cache α) (key : String) :
    (cache.touch key).keys = cache.keysBehind key := by
  unfold touch keysBehind
  cases found : cache.slots.lookup key with
  | some slot =>
    rw [if_pos (mem_keys.mpr ⟨slot, mem_of_lookup found⟩)]
    simp only [keys, others, List.map_cons, List.filter_map]
    rfl
  | none =>
    have absent : key ∉ cache.keys := fun member => by
      rw [← lookup_isSome_iff, found] at member
      cases member
    rw [if_neg absent]
    simp only [keys, List.map_cons, List.map_take]

/-- **A get puts its key in front of the others**, whatever comes of the building. -/
theorem keys_fetch (asked ready : Nat) (build : Unit → BuildResult ε α) :
    (cache.fetch asked ready key build).2.keys = cache.keysBehind key := by
  have touched := keys_touch cache key
  have front (stamped : Stamped α) :
      ((cache.touch key).store key stamped).keys = cache.keysBehind key := by
    rw [← touched, store]
    simp only [keys, List.map_cons, List.map_tail]
    rw [show (cache.touch key).slots.map (·.1) = _ from touched]
    rfl
  unfold fetch
  dsimp only
  cases cache.stored? asked key with
  | some value => exact touched
  | none =>
    dsimp only
    cases build () with
    | built value => exact front _
    | failed error => exact touched
    | aborted => exact touched

/-! ### A key and those in front of it -/

/-- A value is kept for a key, and the keys in front of it are among certain ones. -/
structure Recent (cache : Cache α) (key : String) (value : α) (since : Finset String) : Prop where
  held : ∀ now, cache.stored? now key = some value
  ahead : ∃ front back, cache.keys = front ++ key :: back ∧ ∀ other ∈ front, other ∈ since

/-- A call asks for the value of a key. -/
def Call.AsksFor (key : String) : Call ω ε α → Prop
  | .get other _ _ => other = key
  | .invalidate _ | .clear => False

/-- A call forgets the value of a key. -/
def Call.Forgets (key : String) : Call ω ε α → Prop
  | .get .. => False
  | .invalidate other => other = key
  | .clear => True

variable {since : Finset String}

/-- Asking for a key leaves its value. -/
theorem stored?_touch_self (small : cache.size ≤ cache.policy.capacity) (now : Nat) :
    (cache.touch key).stored? now key = cache.stored? now key := by
  obtain ⟨rest, touched, -⟩ := cache.exists_touch key small
  rw [touched]
  unfold stored? isFresh
  dsimp only
  rw [lookup_front]
  cases cache.slots.lookup key <;> rfl

/-- **Behind a get that is answered with a value**, this is kept, and no key is in front. -/
theorem recent_fetch (endless : cache.policy.timeToLive = none)
    (small : cache.size ≤ cache.policy.capacity) {asked ready : Nat}
    {build : Unit → BuildResult ε α}
    (found : (cache.fetch asked ready key build).1.value? = some value) :
    (cache.fetch asked ready key build).2.Recent key value since where
  ahead := ⟨[], _, keys_fetch asked ready build, nofun⟩
  held now := by
    unfold fetch at found ⊢
    dsimp only at found ⊢
    cases kept : cache.stored? asked key with
    | some own =>
      rw [kept] at found
      cases found
      dsimp only
      rw [stored?_touch_self small, stored?_of_endless endless now asked, kept]
    | none =>
      rw [kept] at found
      dsimp only at found ⊢
      cases result : build () with
      | built own =>
        rw [result] at found
        cases found
        dsimp only
        unfold stored? isFresh store
        dsimp only
        rw [lookup_front, policy_touch, endless]
        rfl
      | failed error =>
        rw [result] at found
        cases found
      | aborted =>
        rw [result] at found
        cases found

/-- Fewer keys than slots are in front of a key, together with one that has no slot. -/
theorem length_lt_of_absent {front back : List String} (split : cache.keys = front ++ key :: back)
    (distinct : cache.keys.Nodup) (inside : ∀ other ∈ front, other ∈ since)
    (few : since.card < cache.policy.capacity) (asked : other ∈ since) (absent : other ∉ cache.keys) :
    front.length + 1 < cache.policy.capacity := by
  have apart : (other :: front).Nodup := by
    rw [split] at distinct absent
    exact List.nodup_cons.mpr ⟨fun member => absent (List.mem_append_left _ member),
      (List.nodup_append.mp distinct).1⟩
  have among : (other :: front).toFinset ⊆ since := fun name member => by
    rcases List.mem_cons.mp (List.mem_toFinset.mp member) with rfl | ahead
    · exact asked
    · exact inside name ahead
  have counted := Finset.card_le_card among
  rw [List.toFinset_card_of_nodup apart, List.length_cons] at counted
  omega

/-- **A get of another key puts this one in front**, and as long as there are fewer such keys than slots, the
value is kept. -/
theorem Recent.fetch (recent : cache.Recent key value since) (distinct : cache.keys.Nodup)
    (small : cache.size ≤ cache.policy.capacity) (few : since.card < cache.policy.capacity)
    (differs : key ≠ other) (asked : other ∈ since) (now ready : Nat) (build : Unit → BuildResult ε α) :
    (cache.fetch now ready other build).2.Recent key value since := by
  obtain ⟨front, back, split, inside⟩ := recent.ahead
  constructor
  · intro later
    rw [stored?_fetch distinct small differs, if_neg, recent.held later]
    rintro ⟨full, absent, last⟩
    have room := length_lt_of_absent split distinct inside few asked absent
    have whole : cache.keys.length = cache.policy.capacity := by rw [← full, keys, List.length_map, size]
    rw [split] at last distinct whole
    -- As no other key is the same, the last one ends the list.
    have ends : back = [] := by
      rcases List.eq_nil_or_concat back with none | ⟨more, final, rfl⟩
      · exact none
      · rw [List.concat_eq_append, ← List.cons_append, ← List.append_assoc,
          List.getLast?_concat] at last
        have same : final = key := Option.some.inj last
        have apart := (List.nodup_cons.mp (List.nodup_append.mp distinct).2.1).1
        exact absurd (by simp [same]) apart
    rw [ends, List.length_append, List.length_singleton] at whole
    omega
  · rw [keys_fetch, keysBehind]
    split
    · have kept : (cache.keys.filter (· ≠ other)) =
          front.filter (· ≠ other) ++ key :: back.filter (· ≠ other) := by
        rw [split, List.filter_append, List.filter_cons_of_pos (by simpa using differs)]
      refine ⟨other :: front.filter (· ≠ other), _, congrArg (other :: ·) kept, fun name member => ?_⟩
      rcases List.mem_cons.mp member with rfl | ahead
      · exact asked
      · exact inside name (List.mem_filter.mp ahead).1
    · rename_i absent
      have room := length_lt_of_absent split distinct inside few asked absent
      obtain ⟨more, places⟩ : ∃ more, cache.policy.capacity - 1 = front.length + (more + 1) :=
        ⟨cache.policy.capacity - 2 - front.length, by omega⟩
      have kept : cache.keys.take (cache.policy.capacity - 1) = front ++ key :: back.take more := by
        rw [split, places, List.take_length_add_append, List.take_succ_cons]
      refine ⟨other :: front, _, congrArg (other :: ·) kept, fun name member => ?_⟩
      rcases List.mem_cons.mp member with rfl | ahead
      · exact asked
      · exact inside name ahead

theorem stored?_invalidate (differs : key ≠ other) (now : Nat) :
    (cache.invalidate other).stored? now key = cache.stored? now key := by
  unfold stored? isFresh invalidate others
  dsimp only
  rw [lookup_filter_of_ne differs]

/-- **A call keeps the value** of a key that it does not forget, if another key that it asks for is a counted
one. -/
theorem Recent.answer (tracks : Tracks clock policy past cache) (endless : policy.timeToLive = none)
    (recent : cache.Recent key value since) (few : since.card < policy.capacity) {call : Call ω ε α}
    (keeps : ¬ call.Forgets key) (counted : ∀ other ≠ key, call.AsksFor other → other ∈ since) :
    (cache.answer clock call).2.Recent key value since := by
  have small := tracks.chosen ▸ tracks.small
  have lasting : cache.policy.timeToLive = none := tracks.chosen ▸ endless
  cases call with
  | clear => exact absurd trivial keeps
  | invalidate other =>
    have differs : key ≠ other := fun same => keeps same.symm
    obtain ⟨front, back, split, inside⟩ := recent.ahead
    constructor
    · intro now
      exact (stored?_invalidate differs now).trans (recent.held now)
    · refine ⟨front.filter (· ≠ other), back.filter (· ≠ other), ?_, fun name member =>
        inside name (List.mem_filter.mp member).1⟩
      rw [← List.filter_cons_of_pos (by simpa using differs), ← List.filter_append, ← split]
      simp only [Cache.answer, invalidate, keys, others, List.filter_map]
      rfl
  | get other build world =>
    simp only [Cache.answer, fetchIn_eq]
    by_cases same : other = key
    · subst same
      refine recent_fetch lasting small ?_
      unfold Cache.fetch
      dsimp only
      rw [recent.held]
      rfl
    · exact recent.fetch tracks.distinct small (tracks.chosen ▸ few) (Ne.symm same)
        (counted other same rfl) _ _ _

/-- **Calls in turn keep the value** of a key that they do not forget, as long as they ask for fewer others
than there are slots. -/
theorem Recent.run (tracks : Tracks clock policy past cache) (endless : policy.timeToLive = none)
    (recent : cache.Recent key value since) (few : since.card < policy.capacity)
    {calls : List (Call ω ε α)} (keeps : ∀ call ∈ calls, ¬ call.Forgets key)
    (counted : ∀ call ∈ calls, ∀ other ≠ key, call.AsksFor other → other ∈ since) :
    (cache.after clock calls).Recent key value since := by
  induction calls generalizing past cache with
  | nil => exact recent
  | cons call rest ih =>
    exact ih (tracks.answer call)
      (recent.answer tracks endless few (keeps call List.mem_cons_self) (counted call List.mem_cons_self))
      (fun other member => keeps other (List.mem_cons_of_mem call member))
      (fun other member => counted other (List.mem_cons_of_mem call member))

/-! ### Two gets of a key -/

/-- The other keys whose values calls ask for. -/
def othersAsked (key : String) (calls : List (Call ω ε α)) : Finset String :=
  (calls.filterMap fun
    | .get other _ _ => if other = key then none else some other
    | .invalidate _ | .clear => none).toFinset

theorem mem_othersAsked {calls : List (Call ω ε α)} {call : Call ω ε α} (member : call ∈ calls)
    (differs : other ≠ key) (asks : call.AsksFor other) : other ∈ othersAsked key calls := by
  refine List.mem_toFinset.mpr (List.mem_filterMap.mpr ⟨call, member, ?_⟩)
  cases call with
  | get name build world =>
    cases asks
    exact if_neg differs
  | invalidate name => cases asks
  | clear => cases asks

theorem after_append (clock : ω → Nat) (cache : Cache α) (before rest : List (Call ω ε α)) :
    cache.after clock (before ++ rest) = (cache.after clock before).after clock rest := by
  induction before generalizing cache with
  | nil => rfl
  | cons call others ih => exact ih _

/-- A key with a value that may serve is answered without its builder. -/
theorem answer_of_held {again : StateM ω (BuildResult ε α)} {later : ω}
    (held : cache.stored? (clock later) key = some value) :
    (cache.answer clock (.get key again later)).1 = .got key (.stored value) later := by
  rcases fetchIn_cases clock cache key again later with ⟨own, behind, found, answered⟩ | ⟨_, found, -⟩
  · cases held.symm.trans found
    rw [Cache.answer, answered]
  · cases held.symm.trans found

/-- **Keys that were asked for a short while ago are served without their builders.** In a cache without a time
to live, let a get of a key be answered with a value. Another get of this key, before it is forgotten and
before as many other keys were asked for as there are slots, is answered with the same value, and leaves its
world as it was. This is so whatever comes of the gets of the other keys, and of any calls before. -/
theorem get_recent (clock : ω → Nat) (policy : CachePolicy) (endless : policy.timeToLive = none)
    {before between rest : List (Call ω ε α)} {build again : StateM ω (BuildResult ε α)}
    {world later left : ω} {answer : CacheAnswer ε α} {calls : List (Call ω ε α)}
    (order : calls =
      before ++ .get key build world :: (between ++ .get key again later :: rest))
    (earlier : ((empty policy).events clock calls)[before.length]? = some (.got key answer left))
    (successful : answer.value? = some value)
    (keeps : ∀ call ∈ between, ¬ call.Forgets key)
    (few : (othersAsked key between).card < policy.capacity) :
    ((empty policy).events clock calls)[before.length + 1 + between.length]? =
      some (.got key (.stored value) later) := by
  have tracks := (tracks_empty (ω := ω) (ε := ε) (α := α) clock policy).run before
  have first := getElem?_events clock (empty policy) before
    (between ++ .get key again later :: rest) (.get key build world)
  rw [← order, earlier, Option.some_inj, Cache.answer, fetchIn_eq] at first
  obtain ⟨-, same, -⟩ := (Event.got.injEq ..).mp first
  have recent : Recent ((((empty policy : Cache α).after clock before).answer clock
      (.get key build world)).2) key value (othersAsked key between) := by
    rw [Cache.answer, fetchIn_eq]
    refine recent_fetch ?_ ?_ (same ▸ successful) <;> rw [tracks.chosen]
    · exact endless
    · exact tracks.small
  have kept := recent.run (tracks.answer (.get key build world)) endless few keeps
    fun call member other differs asks => mem_othersAsked member differs asks
  have second := getElem?_events clock (empty policy) (before ++ .get key build world :: between) rest
    (.get key again later)
  rw [List.append_assoc, List.cons_append, ← order, after_append, after] at second
  rw [show before.length + 1 + between.length = (before ++ .get key build world :: between).length by
    rw [List.length_append, List.length_cons]; omega, second]
  exact congrArg some (answer_of_held (kept.held _))

/-- Room for two keys: a failing get of a second one and the end of a third come between. -/
theorem get_recent_twoSlots :
    ((empty ⟨2, none, by decide⟩).events (fun _ => 0) [.get "de" counting 0, .get "fr" counting 1,
        .get "pl" failing 2, .invalidate "de", .get "pl" counting 3, .get "fr" counting 4])[5]? =
      some (.got "fr" (.stored 2) 4) := by
  have order : [Call.get "de" counting 0, .get "fr" counting 1, .get "pl" failing 2,
      .invalidate "de", .get "pl" counting 3, .get "fr" counting 4] =
    [.get "de" counting 0] ++ .get "fr" counting 1 ::
      ([.get "pl" failing 2, .invalidate "de", .get "pl" counting 3] ++ .get "fr" counting 4 :: []) := rfl
  have earlier : ((empty ⟨2, none, by decide⟩).events (fun _ => 0) [.get "de" counting 0,
      .get "fr" counting 1, .get "pl" failing 2, .invalidate "de", .get "pl" counting 3,
      .get "fr" counting 4])[1]? = some (.got "fr" (.fresh (.built 2)) 2) := rfl
  refine get_recent (fun _ => 0) ⟨2, none, by decide⟩ rfl order earlier rfl ?_ (by decide)
  intro call member
  simp only [List.mem_cons, List.not_mem_nil, or_false] at member
  rcases member with rfl | rfl | rfl
  · exact id
  · exact fun same : "de" = "fr" => absurd same (by decide)
  · exact id

end Cache

end Localization

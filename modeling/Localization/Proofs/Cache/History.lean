import Localization.Proofs.Cache

/-
**What a cache answers, whatever was asked of it before.**

A builder is asked in a world that it sees and changes, and the time is taken from this world. A cache
is called for values, and told to forget them, in any order.

* `Cache.fetchIn` — the value of a key, from its slot or from a builder in a world; `fetchIn_eq`.
* `Cache.Call`, `Cache.Event` — what a cache is called for, and what comes of it; `events`, `after`.
* `Cache.Latest` — the value that was built for a key last, and has not been forgotten.
* `Cache.Tracks` — each value in a slot is the latest of its key; `Tracks.answer`, `Tracks.run`.
* `Cache.get_latest` — what any get of any run answers.
-/

namespace Localization

/-- The value of an answer, stored or built just now. -/
def CacheAnswer.value? {ε α : Type} : CacheAnswer ε α → Option α
  | .stored value => some value
  | .fresh (.built value) => some value
  | .fresh _ => none

namespace Cache

variable {ω ε α : Type}

/-! ### Builders in a world -/

/-- The value of a key, from its slot or from a builder that is asked in a world. The age of a kept
value is taken before, and the time of a new one behind it. -/
def fetchIn (clock : ω → Nat) (cache : Cache α) (key : String) (build : StateM ω (BuildResult ε α)) :
    StateM ω (CacheAnswer ε α × Cache α) := do
  let asked := clock (← get)
  match cache.stored? asked key with
  | some value => return (.stored value, cache.touch key)
  | none =>
    let result ← build
    let built := clock (← get)
    return cache.fetch asked built key fun _ => result

/-- **A builder is asked at most once**, and only if no kept value may serve. What is answered and kept
is what `fetch` makes of its result. -/
theorem fetchIn_eq (clock : ω → Nat) (cache : Cache α) (key : String)
    (build : StateM ω (BuildResult ε α)) (world : ω) :
    cache.fetchIn clock key build world =
      (cache.fetch (clock world) (clock (build world).2) key fun _ => (build world).1,
        if (cache.stored? (clock world) key).isSome then world else (build world).2) := by
  unfold fetchIn
  simp only [bind, StateT.bind, get, getThe, MonadStateOf.get, StateT.get, pure]
  cases found : cache.stored? (clock world) key with
  | some value =>
    unfold fetch
    rw [found]
    rfl
  | none => rfl

/-! ### Calls and events -/

/-- What a cache is called for. -/
inductive Call (ω ε α : Type) where
  /-- The value of a key is asked for in a world, and a builder stands by. -/
  | get (key : String) (build : StateM ω (BuildResult ε α)) (world : ω)
  | invalidate (key : String)
  | clear

/-- What comes of a call. -/
inductive Event (ω ε α : Type) where
  /-- The value of a key was asked for, and this left a world. -/
  | got (key : String) (answer : CacheAnswer ε α) (left : ω)
  | invalidated (key : String)
  | cleared

/-- What comes of a call, and the cache behind it. -/
def answer (clock : ω → Nat) (cache : Cache α) : Call ω ε α → Event ω ε α × Cache α
  | .get key build world =>
    let ((answer, after), left) := cache.fetchIn clock key build world
    (.got key answer left, after)
  | .invalidate key => (.invalidated key, cache.invalidate key)
  | .clear => (.cleared, cache.clear)

/-- What comes of calls in turn. -/
def events (clock : ω → Nat) (cache : Cache α) : List (Call ω ε α) → List (Event ω ε α)
  | [] => []
  | call :: rest =>
    let (event, after) := cache.answer clock call
    event :: after.events clock rest

/-- The cache behind calls in turn. -/
def after (clock : ω → Nat) (cache : Cache α) : List (Call ω ε α) → Cache α
  | [] => cache
  | call :: rest => (cache.answer clock call).2.after clock rest

variable {clock : ω → Nat} {cache : Cache α} {policy : CachePolicy} {past : List (Event ω ε α)}
  {key : String} {value : α} {time : Nat}

theorem events_append (before rest : List (Call ω ε α)) :
    cache.events clock (before ++ rest) =
      cache.events clock before ++ (cache.after clock before).events clock rest := by
  induction before generalizing cache with
  | nil => rfl
  | cons call others ih => exact congrArg _ ih

theorem length_events (clock : ω → Nat) (cache : Cache α) (calls : List (Call ω ε α)) :
    (cache.events clock calls).length = calls.length := by
  induction calls generalizing cache with
  | nil => rfl
  | cons call rest ih => exact congrArg _ (ih _)

/-! ### The latest value of a key -/

/-- The value of a key before the event is not its latest one any more. -/
def Event.Ends (key : String) : Event ω ε α → Prop
  | .got other (.fresh (.built _)) _ => other = key
  | .got .. => False
  | .invalidated other => other = key
  | .cleared => True

/-- A value was built for a key at a time, and since then none was built for it, and it was not
forgotten. -/
def Latest (clock : ω → Nat) (past : List (Event ω ε α)) (key : String) (value : α) (time : Nat) :
    Prop :=
  ∃ earlier left later, past = earlier ++ .got key (.fresh (.built value)) left :: later ∧
    clock left = time ∧ ∀ event ∈ later, ¬ event.Ends key

theorem Latest.append (latest : Latest clock past key value time) {event : Event ω ε α}
    (goesOn : ¬ event.Ends key) : Latest clock (past ++ [event]) key value time := by
  obtain ⟨earlier, left, later, rfl, built, none⟩ := latest
  refine ⟨earlier, left, later ++ [event], by simp, built, fun other member => ?_⟩
  rcases List.mem_append.mp member with before | now
  · exact none other before
  · rw [List.mem_singleton.mp now]
    exact goesOn

theorem latest_built (past : List (Event ω ε α)) (key : String) (value : α) (left : ω) :
    Latest clock (past ++ [.got key (.fresh (.built value)) left]) key value (clock left) :=
  ⟨past, left, [], rfl, rfl, nofun⟩

/-! ### Slots -/

/-- What a cache keeps after some events: each value is the latest of its key. -/
structure Tracks (clock : ω → Nat) (policy : CachePolicy) (past : List (Event ω ε α))
    (cache : Cache α) : Prop where
  chosen : cache.policy = policy
  small : cache.size ≤ policy.capacity
  distinct : cache.keys.Nodup
  latest : ∀ key stamped, (key, some stamped) ∈ cache.slots →
    Latest clock past key stamped.value stamped.time

theorem tracks_empty (clock : ω → Nat) (policy : CachePolicy) :
    Tracks clock policy ([] : List (Event ω ε α)) (empty policy : Cache α) where
  chosen := rfl
  small := Nat.zero_le _
  distinct := .nil
  latest := nofun

/-- What is kept for other keys stays the latest. -/
theorem Tracks.others (tracks : Tracks clock policy past cache) {event : Event ω ε α}
    {slots : List (String × Option (Stamped α))} (fewer : slots.Sublist cache.slots)
    (goesOn : ∀ key slot, (key, slot) ∈ slots → ¬ event.Ends key) :
    Tracks clock policy (past ++ [event]) { cache with slots := slots } where
  chosen := tracks.chosen
  small := Nat.le_trans fewer.length_le tracks.small
  distinct := tracks.distinct.sublist (fewer.map _)
  latest key stamped member :=
    (tracks.latest key stamped (fewer.subset member)).append (goesOn key _ member)

/-- A slot in front of those of other keys. -/
theorem Tracks.front (tracks : Tracks clock policy past cache) {event : Event ω ε α}
    {slot : Option (Stamped α)} {rest : List (String × Option (Stamped α))}
    (fewer : rest.Sublist cache.slots) (apart : ∀ slot, (key, slot) ∉ rest)
    (room : rest.length < policy.capacity)
    (goesOn : ∀ other slot, (other, slot) ∈ rest → ¬ event.Ends other)
    (own : ∀ stamped, slot = some stamped →
      Latest clock (past ++ [event]) key stamped.value stamped.time) :
    Tracks clock policy (past ++ [event]) { cache with slots := (key, slot) :: rest } where
  chosen := tracks.chosen
  small := room
  distinct := by
    refine List.nodup_cons.mpr ⟨fun member => ?_, tracks.distinct.sublist (fewer.map _)⟩
    obtain ⟨⟨other, slot⟩, inside, rfl⟩ := List.mem_map.mp member
    exact apart slot inside
  latest other stamped member := by
    rcases List.mem_cons.mp member with same | later
    · cases same
      exact own stamped rfl
    · exact (tracks.others fewer goesOn).latest other stamped later

/-- A value that may serve is the latest of its key, and not too old. -/
theorem Tracks.stored (tracks : Tracks clock policy past cache) {now : Nat}
    (found : cache.stored? now key = some value) :
    ∃ time, Latest clock past key value time ∧
      ∀ limit, policy.timeToLive = some limit → now - time < limit := by
  unfold stored? at found
  simp only [Option.bind_eq_bind, Option.bind_eq_some_iff] at found
  obtain ⟨slot, inside, stamped, rfl, fresh⟩ := found
  split at fresh
  · rename_i young
    cases fresh
    refine ⟨stamped.time, tracks.latest key stamped (mem_of_lookup inside), fun limit timed => ?_⟩
    rw [isFresh, tracks.chosen, timed] at young
    exact of_decide_eq_true young
  · cases fresh

/-- **A call leaves each kept value the latest of its key.** -/
theorem Tracks.answer (tracks : Tracks clock policy past cache) (call : Call ω ε α) :
    Tracks clock policy (past ++ [(cache.answer clock call).1]) (cache.answer clock call).2 := by
  cases call with
  | invalidate key =>
    refine tracks.others List.filter_sublist fun other slot member same => ?_
    have differs : other ≠ key := by simpa using (List.mem_filter.mp member).2
    exact differs same.symm
  | clear => exact tracks.others (List.nil_sublist _) nofun
  | get key build world =>
    obtain ⟨rest, touched, fewer, apart, room⟩ :=
      cache.exists_touch key (tracks.chosen ▸ tracks.small)
    rw [tracks.chosen] at room
    -- Unless a value is built, the slot of the key holds what it held before.
    have asBefore {event : Event ω ε α} (goesOn : ∀ other, ¬ event.Ends other) :
        Tracks clock policy (past ++ [event]) (cache.touch key) := by
      rw [touched]
      refine tracks.front fewer apart room (fun other _ _ => goesOn other) fun stamped held => ?_
      have inside : cache.slots.lookup key = some (some stamped) := Option.join_eq_some_iff.mp held
      exact (tracks.latest key stamped (mem_of_lookup inside)).append (goesOn key)
    simp only [Cache.answer, fetchIn_eq, fetch]
    cases cache.stored? (clock world) key with
    | some value => exact asBefore fun _ => id
    | none =>
      cases (build world).1 with
      | failed error => exact asBefore fun _ => id
      | aborted => exact asBefore fun _ => id
      | built value =>
        simp only [store, touched, List.tail_cons]
        refine tracks.front fewer apart room (fun other slot member same => ?_) fun stamped held => ?_
        · have differs : key = other := same
          exact apart slot (differs ▸ member)
        · cases held
          exact latest_built past key value (build world).2

/-- **Calls in turn leave each kept value the latest of its key.** -/
theorem Tracks.run (tracks : Tracks clock policy past cache) (calls : List (Call ω ε α)) :
    Tracks clock policy (past ++ cache.events clock calls) (cache.after clock calls) := by
  induction calls generalizing past cache with
  | nil => rwa [events, List.append_nil]
  | cons call rest ih =>
    have further := ih (tracks.answer call)
    rwa [List.append_assoc] at further

/-- A get is answered with a kept value that may serve, or by its builder. -/
theorem fetchIn_cases (clock : ω → Nat) (cache : Cache α) (key : String)
    (build : StateM ω (BuildResult ε α)) (world : ω) :
    (∃ value after, cache.stored? (clock world) key = some value ∧
      cache.fetchIn clock key build world = ((.stored value, after), world)) ∨
    ∃ after, cache.stored? (clock world) key = none ∧
      cache.fetchIn clock key build world = ((.fresh (build world).1, after), (build world).2) := by
  rw [fetchIn_eq, fetch]
  cases cache.stored? (clock world) key with
  | some value => exact .inl ⟨value, _, rfl, rfl⟩
  | none =>
    cases (build world).1 with
    | built value => exact .inr ⟨_, rfl, rfl⟩
    | failed error => exact .inr ⟨_, rfl, rfl⟩
    | aborted => exact .inr ⟨_, rfl, rfl⟩

/-- What comes of a call after others. -/
theorem getElem?_events (clock : ω → Nat) (cache : Cache α) (before rest : List (Call ω ε α))
    (call : Call ω ε α) :
    (cache.events clock (before ++ call :: rest))[before.length]? =
      some ((cache.after clock before).answer clock call).1 := by
  rw [events_append, ← length_events clock cache before,
    List.getElem?_append_right (Nat.le_refl _), Nat.sub_self]
  rfl

/-- **What any get of any run answers.** Its builder is asked at most once: not at all if the latest
value of the key is answered, which is not too old, and once if there is no such value. The answered
value is the latest of its key, built by this get or before it. There never are more slots than the
capacity. -/
theorem get_latest (clock : ω → Nat) (policy : CachePolicy) (before rest : List (Call ω ε α))
    (key : String) (build : StateM ω (BuildResult ε α)) (world : ω) :
    let start : Cache α := .empty policy
    let past := start.events clock before
    ∃ answer left,
      (start.events clock (before ++ .get key build world :: rest))[before.length]? =
        some (.got key answer left) ∧
      (start.after clock before).size ≤ policy.capacity ∧
      (∀ value, answer.value? = some value →
        ∃ time, Latest clock (past ++ [.got key answer left]) key value time) ∧
      ((∃ value time, answer = .stored value ∧ left = world ∧ Latest clock past key value time ∧
          ∀ limit, policy.timeToLive = some limit → clock world - time < limit) ∨
        answer = .fresh (build world).1 ∧ left = (build world).2) ∧
      ((∀ value time, ¬ Latest clock past key value time) ∨ policy.timeToLive = some 0 →
        answer = .fresh (build world).1 ∧ left = (build world).2) := by
  intro start past
  have tracks : Tracks clock policy past (start.after clock before) :=
    (tracks_empty clock policy).run before
  have event := getElem?_events clock start before rest (.get key build world)
  rcases fetchIn_cases clock (start.after clock before) key build world with
    ⟨value, after, kept, answered⟩ | ⟨after, -, answered⟩
  · obtain ⟨time, latest, young⟩ := tracks.stored kept
    rw [answer, answered] at event
    refine ⟨.stored value, world, event, tracks.small, fun other same => ?_,
      .inl ⟨value, time, rfl, rfl, latest, young⟩, fun absent => ?_⟩
    · cases same
      exact ⟨time, latest.append id⟩
    · rcases absent with none | zero
      · exact absurd latest (none value time)
      · exact absurd (young 0 zero) (Nat.not_lt_zero _)
  · rw [answer, answered] at event
    refine ⟨.fresh (build world).1, (build world).2, event, tracks.small, fun value same => ?_,
      .inr ⟨rfl, rfl⟩, fun _ => ⟨rfl, rfl⟩⟩
    cases result : (build world).1 with
    | built other =>
      rw [result] at same
      cases same
      exact ⟨_, latest_built past key value (build world).2⟩
    | failed error =>
      rw [result] at same
      cases same
    | aborted =>
      rw [result] at same
      cases same

end Cache

end Localization

/-
**A bounded cache of built values.**

The cache keeps a slot per key for the keys that were asked for last. A slot may be empty: it is
made before the value is built, and the building may fail. A value older than the time to live is
built again. Where a new key finds no room, the one that was asked for least recently gives way. This
is the documented behaviour of a library for bounded maps that is not part of the program's sources.

* `Cache.fetch`, `Cache.getOrBuild` — the value of a key, from its slot or built anew.
* `Cache.invalidate`, `Cache.clear` — forget one key or all of them.
-/

namespace Localization

/-- How many keys a cache keeps, and for how long their values serve. -/
structure CachePolicy where
  capacity : Nat
  /-- The age in milliseconds from which on a value is built again. -/
  timeToLive : Option Nat
  capacity_pos : 0 < capacity := by decide

/-- The policy of a cache for which none is chosen. -/
def CachePolicy.standard : CachePolicy where
  capacity := 32
  timeToLive := none

/-- How building a value ends. -/
inductive BuildResult (ε α : Type) where
  | built (value : α)
  | failed (error : ε)
  /-- The builder stopped without a result. -/
  | aborted

/-- What a cache answers. -/
inductive CacheAnswer (ε α : Type) where
  /-- The value was in its slot, and the builder was not asked. -/
  | stored (value : α)
  /-- The builder was asked. -/
  | fresh (result : BuildResult ε α)

/-- A value with the time at which it was built. -/
structure Stamped (α : Type) where
  value : α
  time : Nat
  deriving DecidableEq

/-- Slots by key, the one asked for last in front. -/
structure Cache (α : Type) where
  policy : CachePolicy
  slots : List (String × Option (Stamped α))

namespace Cache

variable {ε α : Type}

/-- The cache without slots. -/
def empty (policy : CachePolicy) : Cache α := ⟨policy, []⟩

/-- The number of slots. -/
def size (cache : Cache α) : Nat := cache.slots.length

/-- The keys that have a slot, the one asked for last in front. -/
def keys (cache : Cache α) : List String := cache.slots.map (·.1)

/-- The slots of the other keys. -/
def others (cache : Cache α) (key : String) : List (String × Option (Stamped α)) :=
  cache.slots.filter (·.1 ≠ key)

/-- The cache with the slot of `key` in front. A new slot is empty, and the last slot of a full
cache makes room for it. -/
def touch (cache : Cache α) (key : String) : Cache α :=
  match cache.slots.lookup key with
  | some slot => { cache with slots := (key, slot) :: cache.others key }
  | none => { cache with slots := (key, none) :: cache.slots.take (cache.policy.capacity - 1) }

/-- A value built at `time` may serve at the time `now`. -/
def isFresh (cache : Cache α) (now time : Nat) : Bool :=
  match cache.policy.timeToLive with
  | none => true
  | some limit => now - time < limit

/-- The value in the slot of a key that may serve. -/
def stored? (cache : Cache α) (now : Nat) (key : String) : Option α := do
  let slot ← cache.slots.lookup key
  let stamped ← slot
  if cache.isFresh now stamped.time then some stamped.value else none

/-- The cache with a value in the front slot, which is that of `key`. -/
def store (cache : Cache α) (key : String) (stamped : Stamped α) : Cache α :=
  { cache with slots := (key, some stamped) :: cache.slots.tail }

/-- The value of a key, from its slot or from the builder, whose result is `build`. The age of a kept
value is that at the time `asked`, and a value that is built is there at the time `built`. -/
def fetch (cache : Cache α) (asked built : Nat) (key : String) (build : Unit → BuildResult ε α) :
    CacheAnswer ε α × Cache α :=
  let touched := cache.touch key
  match cache.stored? asked key with
  | some value => (.stored value, touched)
  | none =>
    match build () with
    | .built value => (.fresh (.built value), touched.store key ⟨value, built⟩)
    | result => (.fresh result, touched)

/-- The value of a key at the time `now`, where building takes no time. -/
def getOrBuild (cache : Cache α) (now : Nat) (key : String) (build : Unit → BuildResult ε α) :
    CacheAnswer ε α × Cache α :=
  cache.fetch now now key build

/-- The cache without the slot of a key. -/
def invalidate (cache : Cache α) (key : String) : Cache α :=
  { cache with slots := cache.others key }

/-- The cache without slots. -/
def clear (cache : Cache α) : Cache α :=
  { cache with slots := [] }

end Cache

end Localization

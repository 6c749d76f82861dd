import Localization.Proofs.Translating

/-
**A cache that cannot be seen.**

A service keeps dictionaries in a cache of some keys, each for some time. As the dictionary of a culture
is always loaded the same, the answers are those of a service without a cache: whatever the cache still
holds, has given up or could not load.

* `Service.Call`, `Service.run` — calls in turn, with one cache.
* `Service.Faithful` — each dictionary in a cache is the one that is loaded for its culture.
* `Service.Faithful.answer` — a call keeps a cache so, and is answered as without it.
* `Service.run_eq_direct` — the same of all calls in turn, from the empty cache of any policy.
* `Translator.translate_of_faithful` — what this says of the catalogs of a translator.
-/

namespace Localization

theorem Cache.All.invalidate {α : Type} {holds : String → α → Prop} {cache : Cache α}
    (all : cache.All holds) (key : String) : (cache.invalidate key).All holds :=
  fun other stamped member => all other stamped (List.mem_filter.mp member).1

namespace Service

variable {ρ : Type}

/-- What a service with a cache is called for. A text is translated with a dictionary that is asked for at
one time, and loaded by another where the cache does not hold it. -/
inductive Call where
  | translate (asked loaded : Nat) (culture text : String)
  | invalidate (culture : String)
  deriving DecidableEq, Repr

/-- The answer of a call, if it has one, and the cache behind it. -/
def answer (service : Service ρ) (cache : Cache Dictionary) : Call → Option ρ × Cache Dictionary
  | .translate asked loaded culture text =>
    let (output, after) := service.translate cache asked loaded culture text
    (some output, after)
  | .invalidate culture => (none, cache.invalidate culture)

/-- The answers of calls in turn. -/
def run (service : Service ρ) (cache : Cache Dictionary) : List Call → List (Option ρ)
  | [] => []
  | call :: rest =>
    let (answer, after) := service.answer cache call
    answer :: service.run after rest

/-- The answer of a call where no cache stands between. -/
def direct (service : Service ρ) : Call → Option ρ
  | .translate _ _ culture text => some (service.replace (service.offered culture) text)
  | .invalidate _ => none

/-- Each dictionary in the cache is the one that is loaded for its culture. -/
def Faithful (service : Service ρ) (cache : Cache Dictionary) : Prop :=
  cache.All fun culture dictionary => service.load culture = .ok dictionary

namespace Faithful

variable {service : Service ρ} {cache : Cache Dictionary}

/-- **The dictionary of a culture is the one that is offered without a cache.** -/
theorem dictionary (faithful : service.Faithful cache) (asked loaded : Nat) (culture : String) :
    (service.dictionary cache asked loaded culture).1 = service.offered culture ∧
      service.Faithful (service.dictionary cache asked loaded culture).2 := by
  have builds (value : Dictionary) (built : service.build culture = .built value) :
      service.load culture = .ok value := by
    unfold build at built
    cases loads : service.load culture with
    | error error => simp [loads] at built
    | ok dictionary =>
      rw [loads] at built
      cases built
      rfl
  obtain ⟨kept, outcome⟩ := faithful.fetch asked loaded culture (fun _ => service.build culture) builds
  refine ⟨?_, kept⟩
  unfold Service.dictionary
  dsimp only
  rcases outcome with ⟨value, stored, own⟩ | fresh
  · rw [stored, offered, own]
    rfl
  · rw [fresh, served_build]

/-- **A call keeps the cache faithful, and its answer is the one without a cache.** -/
theorem answer (faithful : service.Faithful cache) (call : Call) :
    (service.answer cache call).1 = service.direct call ∧ service.Faithful (service.answer cache call).2 := by
  cases call with
  | translate asked loaded culture text =>
    obtain ⟨same, kept⟩ := faithful.dictionary asked loaded culture
    refine ⟨?_, kept⟩
    rw [direct, ← same]
    rfl
  | invalidate culture => exact ⟨rfl, faithful.invalidate culture⟩

/-- A run through a faithful cache gives the answers without a cache. -/
theorem run (faithful : service.Faithful cache) (calls : List Call) :
    service.run cache calls = calls.map service.direct := by
  induction calls generalizing cache with
  | nil => rfl
  | cons call rest ih =>
    obtain ⟨same, kept⟩ := faithful.answer call
    calc service.run cache (call :: rest)
        = (service.answer cache call).1 :: service.run (service.answer cache call).2 rest := rfl
      _ = service.direct call :: rest.map service.direct := by rw [same, ih kept]

end Faithful

/-- **A cache never changes a translation.** Whatever its policy is, and whenever it is asked, each text
is translated with the dictionary that is loaded for exactly this culture, or with the empty one if it
cannot be loaded. -/
theorem run_eq_direct (service : Service ρ) (policy : CachePolicy) (calls : List Call) :
    service.run (.empty policy) calls = calls.map service.direct :=
  Faithful.run (Cache.all_empty _ policy) calls

end Service

/-- A translator answers with the catalogs as they are, as long as its cache has them so. -/
theorem Translator.translate_of_faithful {translator : Translator} {tree : FileTree}
    (faithful : (translator.service tree).Faithful translator.cache) (now : Nat) (culture text : String) :
    (translator.translate tree now culture text).1 =
      translator.markup.replace ((translator.service tree).offered culture) text := by
  obtain ⟨same, -⟩ := faithful.dictionary now now culture
  rw [Translator.translate_eq]
  exact congrArg (translator.markup.replace · text) same

end Localization

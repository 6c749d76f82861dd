import Localization.Scheduler.Calls
import Mathlib.Data.List.Pairwise

/-
**Calls of a scheduler in any order.**

Only one job runs at a time, and a job that starts keeps the quiet time after every end that is recorded
when its call looks. A job on a thread of its own gives the permit back before its end is recorded: a call
that looks in between does not see this end.

* `Call.Stage.path` — what a call did to be where it is; `next?_path`.
* `Calls.Sound` — what holds of calls whatever they do; `Sound.act`, `Sound.step`, `Sound.run`.
* `Calls.jobs_of_run` — one job at a time, and how far a start is behind an end.
-/

namespace Localization

namespace Call

variable {thread : Thread} {stage next : Stage} {action : Action}

/-! ### The way of a call -/

/-- What a call did to be where it is, the last first. -/
def Stage.path (thread : Thread) : Stage → List Action
  | ready => []
  | holding => [.acquire]
  | refused => [.refuse, .acquire]
  | cleared => [.clear, .acquire]
  | running => [.start, .clear, .acquire]
  | aborted => [.abort, .start, .clear, .acquire]
  | ended => [.finish, .start, .clear, .acquire]
  | closing => [thread.closing.1, .finish, .start, .clear, .acquire]
  | done => [thread.closing.2, thread.closing.1, .finish, .start, .clear, .acquire]
  | missed => [.miss]
  | turnedAway => [.release, .refuse, .acquire]
  | lost => [.release, .abort, .start, .clear, .acquire]

/-- A call that stands there holds the permit. -/
def Stage.holds (thread : Thread) : Stage → Bool
  | holding | refused | cleared | running | aborted | ended => true
  | closing => thread = .same
  | ready | done | missed | turnedAway | lost => false

/-- Whether the permit is held after an action of a call that holds it or not. -/
def Action.holdsAfter (held : Bool) : Action → Bool
  | acquire => true
  | release => false
  | _ => held

theorem next?_path (steps : stage.next? thread action = some next) :
    next.path thread = action :: stage.path thread := by
  cases thread <;> cases stage <;> cases action <;> cases steps <;> rfl

theorem next?_holds (steps : stage.next? thread action = some next) :
    next.holds thread = action.holdsAfter (stage.holds thread) := by
  cases thread <;> cases stage <;> cases action <;> cases steps <;> rfl

/-- Only a call that holds the permit gives it back. -/
theorem holds_of_release (steps : stage.next? thread .release = some next) :
    stage.holds thread = true := by
  cases thread <;> cases stage <;> cases steps <;> rfl

theorem running_of_finish (steps : stage.next? thread .finish = some next) : stage = .running := by
  cases thread <;> cases stage <;> cases steps <;> rfl

theorem cleared_of_start (steps : stage.next? thread .start = some next) : stage = .cleared := by
  cases thread <;> cases stage <;> cases steps <;> rfl

theorem next?_eq_cleared (steps : stage.next? thread action = some .cleared) :
    stage = .holding ∧ action = .clear := by
  cases thread <;> cases stage <;> cases action <;> cases steps <;> exact ⟨rfl, rfl⟩

theorem taken_effect (action : Action) (moment : Moment) :
    (action.effect moment).scheduler.taken = action.holdsAfter moment.scheduler.taken := by
  cases action <;> rfl

theorem now_effect (action : Action) (moment : Moment) : (action.effect moment).now = moment.now := by
  cases action <;> rfl

theorem minDelay_effect (action : Action) (moment : Moment) :
    (action.effect moment).scheduler.minDelay = moment.scheduler.minDelay := by
  cases action <;> rfl

/-- A call whose job came to its end and that gave the permit back has recorded the end, or runs its job
on a thread of its own. -/
theorem recorded_of_path (finished : .finish ∈ stage.path thread) (free : stage.holds thread = false) :
    .record ∈ stage.path thread ∨
      thread = .own ∧ .release ∈ stage.path thread ∧ .record ∉ stage.path thread := by
  cases thread <;> cases stage <;> simp_all [Stage.path, Stage.holds, Thread.closing]

end Call

namespace Calls

open Call

variable {calls next : Calls} {call : Call} {action : Action} {minDelay now : Nat}

/-! ### What holds whatever the calls do -/

/-- The job of a call gave the permit back, on a thread of its own, before its end is recorded. -/
def Unrecorded (log : List Entry) (call : Call) : Prop :=
  call.thread = .own ∧ (∃ time, ⟨call, .release, time⟩ ∈ log) ∧ ∀ time, ⟨call, .record, time⟩ ∉ log

/-- Every job that came to its end did so a quiet time ago, or its end is not recorded. -/
def Quiet (minDelay : Nat) (log : List Entry) (now : Nat) : Prop :=
  ∀ call time, ⟨call, .finish, time⟩ ∈ log → time + minDelay ≤ now ∨ Unrecorded log call

/-- A call saw that its job may run, and no job came to its end since. -/
def Looked (minDelay : Nat) (log : List Entry) (now : Nat) (call : Call) : Prop :=
  ∃ between before time, log = between ++ ⟨call, .clear, time⟩ :: before ∧ time ≤ now ∧
    (∀ entry ∈ between, entry.action ≠ .finish) ∧ Quiet minDelay before time

/-- Every job starts a quiet time behind the end of every job before it, but for the ends that were not
recorded when its call looked. -/
def Spaced (minDelay : Nat) (log : List Entry) : Prop :=
  ∀ later earlier second start first ended, log = later ++ ⟨second, .start, start⟩ :: earlier →
    ⟨first, .finish, ended⟩ ∈ earlier →
      ended + minDelay ≤ start ∨
        ∃ between before time, earlier = between ++ ⟨second, .clear, time⟩ :: before ∧
          Unrecorded before first

/-- The actions of a call, the last first. -/
def actionsOf (calls : Calls) (call : Call) : List Action :=
  (calls.log.filter (·.call = call)).map (·.action)

/-- What holds of calls of a scheduler with a quiet time. -/
structure Sound (minDelay : Nat) (calls : Calls) : Prop where
  delay : calls.moment.scheduler.minDelay = minDelay
  past : ∀ entry ∈ calls.log, entry.time ≤ calls.moment.now
  path : ∀ call, calls.actionsOf call = (calls.stage call).path call.thread
  taken : ∀ call, (calls.stage call).holds call.thread = true → calls.moment.scheduler.taken = true
  alone : ∀ first second, (calls.stage first).holds first.thread = true →
    (calls.stage second).holds second.thread = true → first = second
  ordered : ∀ call ended time, ⟨call, .finish, ended⟩ ∈ calls.log → ⟨call, .record, time⟩ ∈ calls.log →
    ended ≤ time
  recorded : ∀ call time, ⟨call, .record, time⟩ ∈ calls.log →
    ∃ last, calls.moment.scheduler.lastCompleted = some last ∧ time ≤ last
  looked : ∀ call, calls.stage call = .cleared → Looked minDelay calls.log calls.moment.now call
  spaced : Spaced minDelay calls.log

/-- A call did what is on its way. -/
theorem Sound.mem_path_iff (sound : Sound minDelay calls) :
    action ∈ (calls.stage call).path call.thread ↔ ∃ time, ⟨call, action, time⟩ ∈ calls.log := by
  rw [← sound.path, actionsOf, List.mem_map]
  constructor
  · rintro ⟨⟨other, action, time⟩, member, rfl⟩
    obtain ⟨inside, same⟩ := List.mem_filter.mp member
    cases of_decide_eq_true same
    exact ⟨time, inside⟩
  · rintro ⟨time, inside⟩
    exact ⟨_, List.mem_filter.mpr ⟨inside, decide_eq_true rfl⟩, rfl⟩

variable {stage : Stage}

theorem stage_enter_self : (calls.enter call action stage).stage call = stage := if_pos rfl

theorem stage_enter_of_ne {other : Call} (differs : other ≠ call) :
    (calls.enter call action stage).stage other = calls.stage other := if_neg differs

theorem actionsOf_enter_self :
    (calls.enter call action stage).actionsOf call = action :: calls.actionsOf call := by
  simp [actionsOf, enter]

theorem actionsOf_enter_of_ne {other : Call} (differs : other ≠ call) :
    (calls.enter call action stage).actionsOf other = calls.actionsOf other := by
  simp [actionsOf, enter, differs.symm]

/-- While a call holds the permit, every other job that came to its end is recorded, or it runs on a thread
of its own and gave the permit back. -/
theorem Sound.recorded_or (sound : Sound minDelay calls) {first second : Call} {ended : Nat}
    (finished : ⟨first, .finish, ended⟩ ∈ calls.log) (differs : first ≠ second)
    (holds : (calls.stage second).holds second.thread = true) :
    (∃ time, ⟨first, .record, time⟩ ∈ calls.log) ∨ Unrecorded calls.log first := by
  have free : (calls.stage first).holds first.thread = false :=
    Bool.eq_false_iff.mpr fun held => differs (sound.alone first second held holds)
  rcases recorded_of_path (sound.mem_path_iff.mpr ⟨ended, finished⟩) free with there | ⟨own, released, not⟩
  · exact .inl (sound.mem_path_iff.mp there)
  · exact .inr ⟨own, sound.mem_path_iff.mp released,
      fun time member => not (sound.mem_path_iff.mpr ⟨time, member⟩)⟩

/-- **A call whose job may run is a quiet time behind the ends that are recorded.** -/
theorem Sound.quiet (sound : Sound minDelay calls) (holding : calls.stage call = .holding)
    (quiet : calls.moment.scheduler.withinDelay calls.moment.now = false) :
    Quiet minDelay calls.log calls.moment.now := by
  intro first ended finished
  have holds : (calls.stage call).holds call.thread = true := by
    rw [holding]
    rfl
  have differs : first ≠ call := by
    rintro rfl
    have member := sound.mem_path_iff.mpr ⟨ended, finished⟩
    rw [holding] at member
    simp [Stage.path] at member
  rcases sound.recorded_or finished differs holds with ⟨time, there⟩ | missing
  · obtain ⟨last, completed, before⟩ := sound.recorded first time there
    have after := sound.ordered first ended time finished there
    have past := sound.past _ finished
    rw [Scheduler.withinDelay, completed, sound.delay, Option.any_some, decide_eq_false_iff_not] at quiet
    dsimp only at past
    left
    omega
  · exact .inr missing

theorem lastCompleted_effect (moment : Moment) :
    (action.effect moment).scheduler.lastCompleted =
      if action = .record then some moment.now else moment.scheduler.lastCompleted := by
  cases action <;> rfl

section

variable (sound : Sound minDelay calls) (isOpen : action.isOpen calls.moment = true)
  (steps : (calls.stage call).next? call.thread action = some stage)

include sound isOpen steps

/-- Whoever holds the permit besides a call keeps it, and the call does not get it. -/
theorem Sound.not_holds {other : Call} (differs : other ≠ call)
    (holds : (calls.stage other).holds other.thread = true) :
    stage.holds call.thread = false ∧ action.holdsAfter calls.moment.scheduler.taken = true := by
  have taken := sound.taken other holds
  have free : (calls.stage call).holds call.thread = false :=
    Bool.eq_false_iff.mpr fun held => differs (sound.alone other call holds held)
  rw [next?_holds steps, free]
  cases action with
  | acquire =>
    rw [Action.isOpen, taken] at isOpen
    cases isOpen
  | release => exact absurd (holds_of_release steps) (by rw [free]; decide)
  | miss | refuse | clear | start | finish | abort | record => exact ⟨rfl, taken⟩

theorem Sound.taken_enter (other : Call)
    (holds : ((calls.enter call action stage).stage other).holds other.thread = true) :
    (action.effect calls.moment).scheduler.taken = true := by
  rw [taken_effect]
  by_cases same : other = call
  · rw [same, stage_enter_self, next?_holds steps] at holds
    cases held : (calls.stage call).holds call.thread with
    | true =>
      rw [held] at holds
      rw [sound.taken call held]
      exact holds
    | false =>
      rw [held] at holds
      cases action <;> first | rfl | cases holds
  · rw [stage_enter_of_ne same] at holds
    exact (sound.not_holds isOpen steps same holds).2

theorem Sound.alone_enter (first second : Call)
    (held : ((calls.enter call action stage).stage first).holds first.thread = true)
    (holds : ((calls.enter call action stage).stage second).holds second.thread = true) : first = second := by
  -- A call that holds the permit after its action is the only one.
  have only {other : Call} (differs : other ≠ call)
      (others : ((calls.enter call action stage).stage other).holds other.thread = true) :
      ¬ ((calls.enter call action stage).stage call).holds call.thread = true := by
    rw [stage_enter_of_ne differs] at others
    rw [stage_enter_self, (sound.not_holds isOpen steps differs others).1]
    decide
  by_cases same : first = call <;> by_cases last : second = call
  · rw [same, last]
  · exact absurd (same ▸ held) (only last holds)
  · exact absurd (last ▸ holds) (only same held)
  · rw [stage_enter_of_ne same] at held
    rw [stage_enter_of_ne last] at holds
    exact sound.alone first second held holds

omit isOpen in
theorem Sound.ordered_enter (other : Call) (ended time : Nat)
    (finished : ⟨other, .finish, ended⟩ ∈ (calls.enter call action stage).log)
    (recorded : ⟨other, .record, time⟩ ∈ (calls.enter call action stage).log) : ended ≤ time := by
  rcases List.mem_cons.mp recorded with new | there
  · cases new
    rcases List.mem_cons.mp finished with both | before
    · cases both
    · exact sound.past _ before
  · rcases List.mem_cons.mp finished with new | before
    · cases new
      -- A job that comes to its end is running, and nothing is recorded of it.
      have member := sound.mem_path_iff.mpr ⟨time, there⟩
      rw [running_of_finish steps] at member
      simp [Stage.path] at member
    · exact sound.ordered other ended time before there

omit isOpen steps in
theorem Sound.recorded_enter (other : Call) (time : Nat)
    (member : ⟨other, .record, time⟩ ∈ (calls.enter call action stage).log) :
    ∃ last, (action.effect calls.moment).scheduler.lastCompleted = some last ∧ time ≤ last := by
  rw [lastCompleted_effect]
  rcases List.mem_cons.mp member with new | before
  · cases new
    exact ⟨_, rfl, Nat.le_refl _⟩
  · by_cases again : action = .record
    · exact ⟨_, if_pos again, sound.past _ before⟩
    · rw [if_neg again]
      exact sound.recorded other time before

theorem Sound.looked_enter (other : Call) (cleared : (calls.enter call action stage).stage other = .cleared) :
    Looked minDelay (calls.enter call action stage).log calls.moment.now other := by
  by_cases same : other = call
  · subst same
    rw [stage_enter_self] at cleared
    subst cleared
    obtain ⟨holding, rfl⟩ := next?_eq_cleared steps
    exact ⟨[], calls.log, calls.moment.now, rfl, Nat.le_refl _, List.forall_mem_nil _,
      sound.quiet holding (by simpa [Action.isOpen] using isOpen)⟩
  · rw [stage_enter_of_ne same] at cleared
    obtain ⟨between, before, time, log, past, none, quiet⟩ := sound.looked other cleared
    -- The call that acts does not hold the permit, so that no job of it can end.
    have goesOn : action ≠ .finish := by
      rintro rfl
      have running := running_of_finish steps
      exact same (sound.alone other call (by rw [cleared]; rfl) (by rw [running]; rfl))
    refine ⟨_ :: between, before, time, congrArg _ log, past, fun entry member => ?_, quiet⟩
    rcases List.mem_cons.mp member with rfl | inside
    · exact goesOn
    · exact none entry inside

omit isOpen in
theorem Sound.spaced_enter : Spaced minDelay (calls.enter call action stage).log := by
  intro later earlier second start first ended log finished
  cases later with
  | cons entry rest =>
    exact sound.spaced rest earlier second start first ended (List.cons.inj log).2 finished
  | nil =>
    obtain ⟨new, rfl⟩ := List.cons.inj log
    cases new
    obtain ⟨between, before, time, log, past, none, quiet⟩ := sound.looked call (cleared_of_start steps)
    have early : ⟨first, .finish, ended⟩ ∈ before := by
      rw [log] at finished
      rcases List.mem_append.mp finished with inside | rest
      · exact absurd rfl (none _ inside)
      · exact (List.mem_cons.mp rest).resolve_left fun same => nomatch same
    rcases quiet first ended early with apart | missing
    · exact .inl (Nat.le_trans apart past)
    · exact .inr ⟨between, before, time, log, missing⟩

/-- **What holds of calls still holds after an action.** -/
theorem Sound.act : Sound minDelay (calls.enter call action stage) where
  delay := (minDelay_effect action calls.moment).trans sound.delay
  past entry member := by
    show entry.time ≤ (action.effect calls.moment).now
    rw [now_effect]
    rcases List.mem_cons.mp member with rfl | before
    · exact Nat.le_refl _
    · exact sound.past entry before
  path other := by
    by_cases same : other = call
    · rw [same, stage_enter_self, actionsOf_enter_self, sound.path, next?_path steps]
    · rw [stage_enter_of_ne same, actionsOf_enter_of_ne same, sound.path]
  taken := sound.taken_enter isOpen steps
  alone := sound.alone_enter isOpen steps
  ordered := sound.ordered_enter steps
  recorded := sound.recorded_enter
  looked other cleared := by
    show Looked minDelay _ (action.effect calls.moment).now other
    rw [now_effect]
    exact sound.looked_enter isOpen steps other cleared
  spaced := sound.spaced_enter steps

end

theorem Sound.wait (sound : Sound minDelay calls) (time : Nat) :
    Sound minDelay { calls with moment := calls.moment.advance time } where
  delay := sound.delay
  past entry member := Nat.le_trans (sound.past entry member) (Nat.le_add_right ..)
  path := sound.path
  taken := sound.taken
  alone := sound.alone
  ordered := sound.ordered
  recorded := sound.recorded
  looked call cleared := by
    obtain ⟨between, before, looked, log, past, rest⟩ := sound.looked call cleared
    exact ⟨between, before, looked, log, Nat.le_trans past (Nat.le_add_right ..), rest⟩
  spaced := sound.spaced

theorem sound_idle (minDelay now : Nat) : Sound minDelay (idle minDelay now) where
  delay := rfl
  past := List.forall_mem_nil _
  path _ := rfl
  taken _ holds := nomatch holds
  alone _ _ holds := nomatch holds
  ordered _ _ _ finished := nomatch finished
  recorded _ _ member := nomatch member
  looked _ cleared := nomatch cleared
  spaced later := by
    intro earlier second start first ended log
    cases later <;> cases log

theorem step?_act_eq_some : calls.step? (.act call action) = some next ↔
    action.isOpen calls.moment = true ∧
      ∃ stage, (calls.stage call).next? call.thread action = some stage ∧
        calls.enter call action stage = next := by
  rw [step?]
  split
  case isTrue isOpen => simp [isOpen, Option.map_eq_some_iff]
  case isFalse closed => simp [closed]

/-- **What holds of calls still holds after a move.** -/
theorem Sound.step (sound : Sound minDelay calls) {move : Move} (steps : calls.step? move = some next) :
    Sound minDelay next := by
  cases move with
  | wait time =>
    cases steps
    exact sound.wait time
  | act call action =>
    obtain ⟨isOpen, stage, later, rfl⟩ := step?_act_eq_some.mp steps
    exact sound.act isOpen later

theorem Sound.run (sound : Sound minDelay calls) {moves : List Move} (runs : calls.run? moves = some next) :
    Sound minDelay next := by
  induction moves generalizing calls with
  | nil =>
    cases runs
    exact sound
  | cons move rest ih =>
    obtain ⟨middle, first, others⟩ := Option.bind_eq_some_iff.mp runs
    exact ih (sound.step first) others

/-- **Jobs of calls that interleave in any order.** Only one runs at a time. A job starts a quiet time
behind the end of every job before it, unless that one ran on a thread of its own and had given the permit
back, but its end was not recorded, when the call of the later one looked. -/
theorem jobs_of_run {moves : List Move} (runs : (idle minDelay now).run? moves = some calls) :
    (∀ first second, calls.stage first = .running → calls.stage second = .running → first = second) ∧
      ∀ later earlier second start first ended, calls.log = later ++ ⟨second, .start, start⟩ :: earlier →
        ⟨first, .finish, ended⟩ ∈ earlier →
          ended + minDelay ≤ start ∨
            ∃ between before time, earlier = between ++ ⟨second, .clear, time⟩ :: before ∧
              first.thread = .own ∧ (∃ time, ⟨first, .release, time⟩ ∈ before) ∧
              ∀ time, ⟨first, .record, time⟩ ∉ before := by
  have sound := (sound_idle minDelay now).run runs
  refine ⟨fun first second running also => ?_, sound.spaced⟩
  exact sound.alone first second (by rw [running]; rfl) (by rw [also]; rfl)

/-- A job that its caller runs itself, and another one as soon as the quiet time is over. -/
def inTurn : List Move :=
  [.acquire, .clear, .start, .finish, .record, .release].map (.act ⟨0, .same⟩) ++
    .wait 500 :: [.acquire, .clear, .start].map (.act ⟨1, .own⟩)

theorem jobs_of_run_inTurn :
    ∃ calls earlier, (idle 500 0).run? inTurn = some calls ∧
      (∀ call, calls.stage call = .running → call = ⟨1, .own⟩) ∧
      calls.log = ⟨⟨1, .own⟩, .start, 500⟩ :: earlier ∧ ⟨⟨0, .same⟩, .finish, 0⟩ ∈ earlier ∧
      0 + 500 ≤ 500 := by
  obtain ⟨calls, runs⟩ : ∃ calls, (idle 500 0).run? inTurn = some calls := ⟨_, rfl⟩
  obtain ⟨alone, spaced⟩ := jobs_of_run runs
  cases runs
  refine ⟨_, _, rfl, fun call running => alone call ⟨1, .own⟩ running rfl, rfl, by decide, ?_⟩
  exact (spaced [] _ ⟨1, .own⟩ 500 ⟨0, .same⟩ 0 rfl (by decide)).resolve_right
    fun ⟨_, _, _, _, own, _⟩ => nomatch own

/-- A job on a thread of its own, and a call that comes when the permit is back and before the end of the
job is recorded. -/
def overtaking : List Move :=
  [.acquire, .clear, .start].map (.act ⟨0, .own⟩) ++ .wait 10 :: [.finish, .release].map (.act ⟨0, .own⟩) ++
    .wait 1 :: [.acquire, .clear, .start].map (.act ⟨1, .own⟩) ++ [.act ⟨0, .own⟩ .record]

/-- A job starts within the quiet time behind the end of another one. -/
theorem overtaking_starts_early :
    ∃ calls earlier, (idle 500 0).run? overtaking = some calls ∧
      calls.log = ⟨⟨0, .own⟩, .record, 11⟩ :: ⟨⟨1, .own⟩, .start, 11⟩ :: earlier ∧
      ⟨⟨0, .own⟩, .finish, 10⟩ ∈ earlier ∧ ¬ 10 + 500 ≤ 11 :=
  ⟨_, _, rfl, rfl, by decide, by decide⟩

end Calls

end Localization

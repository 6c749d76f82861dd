import Localization.Proofs.Scheduler
import Localization.Proofs.Scheduler.Nesting

/-
**Triggers that come one after the other.**

What becomes of triggers, and of the triggers that their jobs issue, is what becomes of calls of which each
takes all its steps before the next one is made, or has the next ones made while its job runs.

* `Calls.Leads` — moves of calls from a number on.
* `Calls.happenings` — what the steps of calls mean for triggers and jobs.
* `leads_dropped`, `leads_running`, `leads_finished` — the parts of a call.
* `Trigger.leads_fire`, `leads_fireAll`, `leads_fireEach` — triggers as calls.
* `Trigger.starts_iff_quiet` — when jobs run, and when the permit is free.
-/

namespace Localization

open Call Calls

/-- What an action means for a trigger or its job, if anything. -/
def Call.Action.happening? : Action → Option Trigger.Happening
  | miss | refuse => some .dropped
  | start => some .started
  | finish => some .finished
  | abort => some .aborted
  | acquire | clear | record | release => none

namespace Calls

variable {calls middle later : Calls} {call : Call} {action : Action} {stage : Stage} {number next : Nat}

/-- A call that does not act stays where it is. -/
theorem stage_of_run {moves : List Move} (runs : calls.run? moves = some later)
    (still : ∀ action, .act call action ∉ moves) : later.stage call = calls.stage call := by
  induction moves generalizing calls with
  | nil =>
    cases runs
    rfl
  | cons move rest ih =>
    obtain ⟨middle, first, others⟩ := Option.bind_eq_some_iff.mp runs
    rw [ih others fun action member => still action (List.mem_cons_of_mem _ member)]
    cases move with
    | wait time =>
      cases first
      rfl
    | act other action =>
      obtain ⟨-, stage, -, rfl⟩ := step?_act_eq_some.mp first
      exact stage_enter_of_ne fun same => still action (same ▸ List.mem_cons_self)

/-- Moves of calls from a number on lead to later calls. -/
def Leads (calls later : Calls) (number : Nat) : Prop :=
  ∃ moves, calls.run? moves = some later ∧ ∀ call action, .act call action ∈ moves → number ≤ call.number

theorem Leads.refl (calls : Calls) (number : Nat) : Leads calls calls number :=
  ⟨[], rfl, fun _ _ member => nomatch member⟩

theorem Leads.wait (calls : Calls) (time number : Nat) :
    Leads calls { calls with moment := calls.moment.advance time } number :=
  ⟨[.wait time], rfl, fun _ _ member => nomatch List.mem_singleton.mp member⟩

theorem Leads.trans (first : Leads calls middle number) (second : Leads middle later number) :
    Leads calls later number := by
  obtain ⟨early, runs, above⟩ := first
  obtain ⟨late, others, high⟩ := second
  refine ⟨early ++ late, ?_, fun call action member => ?_⟩
  · rw [run?] at runs
    rw [run?, List.foldlM_append, runs]
    exact others
  · exact (List.mem_append.mp member).elim (above call action) (high call action)

/-- One more action of a call. -/
theorem Leads.act (leads : Leads calls middle call.number) (action : Action)
    (isOpen : action.isOpen middle.moment = true)
    (steps : (middle.stage call).next? call.thread action = some stage) :
    Leads calls (middle.enter call action stage) call.number := by
  refine leads.trans ⟨[.act call action], ?_, fun other action member => ?_⟩
  · rw [run?, List.foldlM_cons, step?_act_eq_some.mpr ⟨isOpen, stage, steps, rfl⟩]
    rfl
  · cases List.mem_singleton.mp member
    exact Nat.le_refl _

theorem Leads.mono (leads : Leads calls later next) (above : number ≤ next) : Leads calls later number := by
  obtain ⟨moves, runs, high⟩ := leads
  exact ⟨moves, runs, fun call action member => Nat.le_trans above (high call action member)⟩

theorem Leads.stage_of_lt (leads : Leads calls later number) (low : call.number < number) :
    later.stage call = calls.stage call := by
  obtain ⟨moves, runs, high⟩ := leads
  exact stage_of_run runs fun action member => Nat.not_le_of_lt low (high call action member)

/-- Calls that were not made are not made from some number on. -/
theorem Leads.ready (leads : Leads calls later number)
    (ready : ∀ call, number ≤ call.number → calls.stage call = .ready) :
    ∃ limit, number ≤ limit ∧ ∀ call, limit ≤ call.number → later.stage call = .ready := by
  obtain ⟨moves, runs, -⟩ := leads
  obtain ⟨limit, above⟩ : ∃ limit, ∀ call action, Move.act call action ∈ moves → call.number < limit := by
    clear runs
    induction moves with
    | nil => exact ⟨0, fun _ _ member => nomatch member⟩
    | cons move rest ih =>
      obtain ⟨limit, above⟩ := ih
      cases move with
      | wait time =>
        refine ⟨limit, fun call action member => above call action ?_⟩
        exact (List.mem_cons.mp member).resolve_left fun same => nomatch same
      | act other action =>
        refine ⟨max limit (other.number + 1), fun call action member => ?_⟩
        rcases List.mem_cons.mp member with same | inside
        · cases same
          omega
        · have := above call action inside
          omega
  refine ⟨max number limit, Nat.le_max_left .., fun call high => ?_⟩
  rw [stage_of_run runs fun action member => absurd (above call action member) (by omega)]
  exact ready call (by omega)

/-- What calls did to triggers and jobs, and when. -/
def happenings (calls : Calls) : List (Trigger.Happening × Nat) :=
  (calls.log.filterMap fun entry => entry.action.happening?.map (·, entry.time)).reverse

theorem happenings_silent (silent : action.happening? = none) :
    (calls.enter call action stage).happenings = calls.happenings := by
  simp [happenings, enter, silent]

theorem happenings_enter {kind : Trigger.Happening} (happens : action.happening? = some kind) :
    (calls.enter call action stage).happenings = calls.happenings ++ [(kind, calls.moment.now)] := by
  simp [happenings, enter, happens]

/-- A trigger that is not admitted is dropped. -/
theorem leads_dropped (ready : calls.stage call = .ready)
    (drops : calls.moment.scheduler.admits calls.moment.now = false) :
    ∃ later, Leads calls later call.number ∧ later.moment = calls.moment ∧
      later.happenings = calls.happenings ++ [(.dropped, calls.moment.now)] := by
  have none := Leads.refl calls call.number
  cases taken : calls.moment.scheduler.taken with
  | true => exact ⟨_, none.act .miss taken (by rw [ready]; rfl), rfl, happenings_enter rfl⟩
  | false =>
    have late : calls.moment.scheduler.withinDelay calls.moment.now = true := by
      simpa [Scheduler.admits, taken] using drops
    have held := none.act .acquire (by rw [Action.isOpen, taken]; rfl) (by rw [ready]; rfl)
    have refused := held.act .refuse late (by rw [stage_enter_self]; rfl)
    have released := refused.act .release rfl (by rw [stage_enter_self]; rfl)
    refine ⟨_, released, ?_, ?_⟩
    · show { calls.moment with scheduler := calls.moment.scheduler.acquire.release } = calls.moment
      rw [Scheduler.release_acquire taken]
    · rw [happenings_silent rfl, happenings_enter rfl, happenings_silent rfl]
      rfl

/-- A trigger that is admitted runs its job. -/
theorem leads_running (ready : calls.stage call = .ready)
    (admits : calls.moment.scheduler.admits calls.moment.now = true) :
    ∃ later, Leads calls later call.number ∧ later.stage call = .running ∧
      later.moment = { calls.moment with scheduler := calls.moment.scheduler.acquire } ∧
      later.happenings = calls.happenings ++ [(.started, calls.moment.now)] := by
  obtain ⟨free, quiet⟩ := Bool.and_eq_true_iff.mp admits
  have held := (Leads.refl calls call.number).act .acquire free (by rw [ready]; rfl)
  have cleared := held.act .clear quiet (by rw [stage_enter_self]; rfl)
  have running := cleared.act .start rfl (by rw [stage_enter_self]; rfl)
  refine ⟨_, running, stage_enter_self, rfl, ?_⟩
  rw [happenings_enter rfl, happenings_silent rfl, happenings_silent rfl]
  rfl

/-- A job that runs comes to its end, or it is aborted. -/
theorem leads_finished (running : calls.stage call = .running) (ending : Ending) :
    ∃ later, Leads calls later call.number ∧ later.moment = calls.moment.finish (ending = .finish) ∧
      later.happenings = calls.happenings ++ [(.ofEnding ending, calls.moment.now)] := by
  have none := Leads.refl calls call.number
  cases ending with
  | abort =>
    have aborted := none.act .abort rfl (by rw [running]; rfl)
    refine ⟨_, aborted.act .release rfl (by rw [stage_enter_self]; rfl), rfl, ?_⟩
    rw [happenings_silent rfl, happenings_enter rfl]
    rfl
  | finish =>
    have ended := none.act .finish rfl (by rw [running]; rfl)
    cases thread : call.thread with
    | same =>
      have recorded := ended.act .record rfl (by rw [stage_enter_self, thread]; rfl)
      refine ⟨_, recorded.act .release rfl (by rw [stage_enter_self, thread]; rfl), rfl, ?_⟩
      rw [happenings_silent rfl, happenings_silent rfl, happenings_enter rfl]
      rfl
    | own =>
      have released := ended.act .release rfl (by rw [stage_enter_self, thread]; rfl)
      refine ⟨_, released.act .record rfl (by rw [stage_enter_self, thread]; rfl), rfl, ?_⟩
      rw [happenings_silent rfl, happenings_silent rfl, happenings_enter rfl]
      rfl

end Calls

namespace Trigger

/-- What an event is and when it was. -/
def Event.happening (event : Event) : Happening × Nat := (event.kind, event.moment.now)

mutual

/-- **What becomes of a trigger is what becomes of a call** that takes its steps, with the calls of its job
between them. -/
theorem leads_fire {calls : Calls} {number : Nat}
    (ready : ∀ call, number ≤ call.number → calls.stage call = .ready) :
    ∀ trigger : Trigger, ∃ later, Leads calls later number ∧
      later.moment = (trigger.fire calls.moment).2 ∧
      later.happenings = calls.happenings ++ (trigger.events calls.moment).map (·.happening)
  | .mk wait thread nested work ending => by
    let call : Call := ⟨number, thread⟩
    let arrived : Calls := { calls with moment := calls.moment.advance wait }
    have waits : Leads calls arrived number := .wait calls wait number
    have unmade : arrived.stage call = .ready := ready call (Nat.le_refl _)
    by_cases admits : arrived.moment.scheduler.admits arrived.moment.now = true
    · obtain ⟨begun, begins, running, moment, starts⟩ := leads_running unmade admits
      obtain ⟨limit, above, others⟩ := begins.ready ready
      -- The calls of the job have the numbers behind that of the call.
      have high (other : Call) (behind : max limit (number + 1) ≤ other.number) : begun.stage other = .ready :=
        others other (Nat.le_trans (Nat.le_max_left ..) behind)
      obtain ⟨middle, inside, after, issued⟩ := leads_fireAll high nested
      have still : middle.stage call = .running :=
        (inside.stage_of_lt (Nat.lt_of_lt_of_le (Nat.lt_succ_self number) (Nat.le_max_right ..))).trans running
      have whole := ((waits.trans begins).trans (inside.mono (by omega))).trans (.wait middle work number)
      let worked : Calls := { middle with moment := middle.moment.advance work }
      have goes : worked.stage call = .running := still
      obtain ⟨later, ends, last, finished⟩ := leads_finished goes ending
      have fired : later.moment = ((Trigger.mk wait thread nested work ending).fire calls.moment).2 := by
        rw [last, fire_of_admits admits]
        show Moment.finish (middle.moment.advance work) _ = _
        rw [after, moment, fireAll_of_taken rfl]
        simp [arrived, Moment.advance, Nat.add_assoc]
      refine ⟨later, whole.trans ends, fired, ?_⟩
      rw [finished, events_of_admits admits, ← fired, last]
      show middle.happenings ++ _ = _
      rw [issued, moment, starts]
      simp only [List.map_cons, List.map_append, List.map_nil, List.append_assoc, List.singleton_append]
      rfl
    · obtain ⟨later, drops, moment, dropped⟩ := leads_dropped unmade (Bool.eq_false_iff.mpr admits)
      have fired : (Trigger.mk wait thread nested work ending).fire calls.moment = _ :=
        fire_of_not_admits admits
      refine ⟨later, waits.trans drops, by rw [moment, fired], ?_⟩
      rw [dropped, events_of_dropped fired]
      rfl

theorem leads_fireAll {calls : Calls} {number : Nat}
    (ready : ∀ call, number ≤ call.number → calls.stage call = .ready) :
    ∀ triggers : List Trigger, ∃ later, Leads calls later number ∧
      later.moment = (fireAll calls.moment triggers).2.2 ∧
      later.happenings = calls.happenings ++ (eventsAll calls.moment triggers).map (·.happening)
  | [] => ⟨calls, .refl calls number, rfl, (List.append_nil _).symm⟩
  | trigger :: rest => by
    obtain ⟨middle, first, moment, happened⟩ := leads_fire ready trigger
    rw [fireAll, eventsAll]
    by_cases contained : (trigger.fire calls.moment).1.isContained
    · obtain ⟨limit, above, unmade⟩ := first.ready ready
      obtain ⟨later, others, after, following⟩ := leads_fireAll unmade rest
      refine ⟨later, first.trans (others.mono above), ?_, ?_⟩
      · rw [after, moment]
        simp [contained]
      · rw [following, happened, moment]
        simp [contained]
    · refine ⟨middle, first, ?_, ?_⟩
      · rw [moment]
        simp [contained]
      · rw [happened]
        simp [contained]

end

/-- **Triggers that come one after the other are calls of a scheduler.** -/
theorem leads_fireEach {calls : Calls} {number : Nat}
    (ready : ∀ call, number ≤ call.number → calls.stage call = .ready) (triggers : List Trigger) :
    ∃ later, Leads calls later number ∧ later.moment = (fireEach calls.moment triggers).2 ∧
      later.happenings = calls.happenings ++ (eventsEach calls.moment triggers).map (·.happening) := by
  induction triggers generalizing calls number with
  | nil => exact ⟨calls, .refl calls number, rfl, (List.append_nil _).symm⟩
  | cons trigger rest ih =>
    obtain ⟨middle, first, moment, happened⟩ := leads_fire ready trigger
    obtain ⟨limit, above, unmade⟩ := first.ready ready
    obtain ⟨later, others, after, following⟩ := ih unmade
    refine ⟨later, first.trans (others.mono above), ?_, ?_⟩
    · rw [after, moment, fireEach]
    · rw [following, happened, moment, eventsEach, List.map_append, List.append_assoc]

/-- **When jobs run, and when the permit is free.** Whatever triggers come one after the other, and whatever
triggers their jobs issue, a job starts exactly if no job runs and every job that came to its end did so a
quiet time ago, and the permit is taken exactly while a job runs. The triggers of a job that runs are all
dropped, and an aborted job leaves the scheduler as it was. All this is what calls of the scheduler make of the
triggers step by step. -/
theorem starts_iff_quiet (minDelay now : Nat) (triggers : List Trigger) :
    (∀ before event after, eventsEach ⟨.idle minDelay, now⟩ triggers = before ++ event :: after →
      (event.kind.isArrival = true →
        (event.kind = .started ↔ ¬ Busy before ∧
          ∀ ended ∈ before, ended.kind = .finished → ended.moment.now + minDelay ≤ event.moment.now)) ∧
      (event.moment.scheduler.taken = true ↔ Busy (before ++ [event]))) ∧
    (fireEach ⟨.idle minDelay, now⟩ triggers).2.scheduler.taken = false ∧
    (∀ (moment : Moment) (trigger : Trigger),
      ((trigger.fire moment).1 = .dropped ∧ (trigger.events moment).map (·.kind) = [.dropped] ∨
        (trigger.fire moment).1 = trigger.outcome ∧
          (trigger.events moment).map (·.kind) =
            .started :: (trigger.nested.map (fun _ => .dropped) ++ [.ofEnding trigger.ending])) ∧
      (trigger.ending = .abort → (trigger.fire moment).2.scheduler = moment.scheduler)) ∧
    ∃ moves calls, (Calls.idle minDelay now).run? moves = some calls ∧
      calls.moment = (fireEach ⟨.idle minDelay, now⟩ triggers).2 ∧
      calls.happenings = (eventsEach ⟨.idle minDelay, now⟩ triggers).map fun event =>
        (event.kind, event.moment.now) := by
  obtain ⟨orderly, last⟩ := (trails_idle minDelay now).fireEach triggers
  have ready : ∀ call : Call, 0 ≤ call.number → (Calls.idle minDelay now).stage call = .ready :=
    fun _ _ => rfl
  obtain ⟨calls, ⟨moves, runs, -⟩, reached, happened⟩ := leads_fireEach ready triggers
  refine ⟨fun before event after split => ?_, last.free, fun moment trigger => ?_,
    moves, calls, runs, reached, happened⟩
  · obtain ⟨starts, taken⟩ := orderly before event after split
    exact ⟨starts, taken⟩
  · exact ⟨fire_cases moment trigger, scheduler_of_abort moment⟩

/-- A job that is aborted does not keep the next one from running, which drops its own trigger and, as it
comes to its end, the trigger behind it. -/
example : (eventsEach ⟨.idle 500, 0⟩ [.mk 0 .own [] 1 .abort, .mk 0 .same [.mk 0 .own [] 0 .finish] 2 .finish,
      .mk 10 .own [] 0 .finish]).map (·.kind) =
    [.started, .aborted, .started, .dropped, .finished, .dropped] := by decide

end Trigger

end Localization

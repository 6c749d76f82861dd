import Localization.Scheduler

/-
**Calls of a scheduler, one step at a time.**

A trigger is one call of the scheduler, and several calls may be under way at once. What they do to the
scheduler happens in single steps, in an order that each call keeps, and the steps of different calls
come in any order. A job on a thread of its own gives the permit back where it ends, and its caller
records the end when it hears of it; a caller that runs its job itself records first.

* `Call.Stage`, `Call.Action`, `Call.Stage.next?` — where a call stands and what it does next.
* `Calls` — the scheduler and the time, with all calls and what they did.
* `Calls.step?`, `Calls.run?` — moves of the calls and of the clock.
-/

namespace Localization

/-- A call of the scheduler, with the thread that its job runs on. -/
structure Call where
  number : Nat
  thread : Thread
  deriving DecidableEq, Repr

namespace Call

/-- One step of a call. -/
inductive Action where
  /-- The permit is taken: the trigger is dropped. -/
  | miss
  | acquire
  /-- A job ended within the quiet time: the trigger is dropped. -/
  | refuse
  /-- No job ended within the quiet time. -/
  | clear
  | start
  | finish
  | abort
  /-- The end of the job is recorded. -/
  | record
  | release
  deriving DecidableEq, Repr

/-- Where a call stands. -/
inductive Stage where
  | ready
  /-- The call holds the permit. -/
  | holding
  /-- It holds the permit, and its job may not run. -/
  | refused
  /-- It holds the permit, and its job may run. -/
  | cleared
  | running
  /-- The job was aborted, and the permit is still held. -/
  | aborted
  /-- The job came to its end, with nothing done about it. -/
  | ended
  /-- One of the two steps behind the end of the job is done. -/
  | closing
  | done
  /-- The permit was taken. -/
  | missed
  /-- A job had ended within the quiet time. -/
  | turnedAway
  /-- The job was aborted. -/
  | lost
  deriving DecidableEq, Repr

end Call

/-- The two steps behind the end of a job, in their order. -/
def Thread.closing : Thread → Call.Action × Call.Action
  | same => (.record, .release)
  | own => (.release, .record)

namespace Call

/-- Where a call stands after an action, which must be the next one. -/
def Stage.next? (thread : Thread) : Stage → Action → Option Stage
  | ready, .miss => some missed
  | ready, .acquire => some holding
  | holding, .refuse => some refused
  | holding, .clear => some cleared
  | refused, .release => some turnedAway
  | cleared, .start => some running
  | running, .finish => some ended
  | running, .abort => some aborted
  | aborted, .release => some lost
  | ended, action => if action = thread.closing.1 then some closing else none
  | closing, action => if action = thread.closing.2 then some done else none
  | _, _ => none

/-- The scheduler lets an action happen at a moment. -/
def Action.isOpen (moment : Moment) : Action → Bool
  | miss => moment.scheduler.taken
  | acquire => !moment.scheduler.taken
  | refuse => moment.scheduler.withinDelay moment.now
  | clear => !moment.scheduler.withinDelay moment.now
  | _ => true

/-- The moment after an action. -/
def Action.effect (moment : Moment) : Action → Moment
  | acquire => { moment with scheduler := moment.scheduler.acquire }
  | record => { moment with scheduler := moment.scheduler.complete moment.now }
  | release => { moment with scheduler := moment.scheduler.release }
  | _ => moment

/-- An action of a call, and when it was. -/
structure Entry where
  call : Call
  action : Action
  time : Nat
  deriving DecidableEq, Repr

end Call

/-- The scheduler and the time, where each call stands, and what the calls did, the last first. -/
structure Calls where
  moment : Moment
  stage : Call → Call.Stage
  log : List Call.Entry

namespace Calls

open Call

/-- A scheduler that no call was made of. -/
def idle (minDelay now : Nat) : Calls := ⟨⟨.idle minDelay, now⟩, fun _ => .ready, []⟩

/-- The calls after an action of one of them. -/
def enter (calls : Calls) (call : Call) (action : Action) (stage : Stage) : Calls where
  moment := action.effect calls.moment
  stage other := if other = call then stage else calls.stage other
  log := ⟨call, action, calls.moment.now⟩ :: calls.log

/-- What happens next: time passes, or a call acts. -/
inductive Move where
  | wait (time : Nat)
  | act (call : Call) (action : Action)
  deriving DecidableEq, Repr

/-- The calls after a move that is possible. -/
def step? (calls : Calls) : Move → Option Calls
  | .wait time => some { calls with moment := calls.moment.advance time }
  | .act call action =>
    if action.isOpen calls.moment then
      ((calls.stage call).next? call.thread action).map (calls.enter call action)
    else none

/-- The calls after moves, each of which is possible. -/
def run? (calls : Calls) (moves : List Move) : Option Calls :=
  moves.foldlM step? calls

end Calls

end Localization

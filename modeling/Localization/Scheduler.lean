/-
**A scheduler that runs one job at a time.**

A trigger asks the scheduler to run a job. It is dropped while another job holds the permit, and
within a quiet time after a job that came to its end. A trigger may run its job on a thread of its
own; an abort of such a job stays there. Permits and threads follow the documented behaviour of
a runtime that is not part of the program's sources.

* `Scheduler.admits` — whether a trigger at a given time is run.
* `Trigger.fire` — what becomes of a trigger whose job may issue triggers of its own.
-/

namespace Localization

/-- One permit, and the quiet time after a job that came to its end. -/
structure Scheduler where
  /-- The quiet time in milliseconds. -/
  minDelay : Nat
  taken : Bool
  /-- When the last job that was not aborted came to its end. -/
  lastCompleted : Option Nat
  deriving DecidableEq, Repr

namespace Scheduler

/-- The scheduler before its first job. -/
def idle (minDelay : Nat) : Scheduler := ⟨minDelay, false, none⟩

/-- The last job ended less than the quiet time before `now`. -/
def withinDelay (scheduler : Scheduler) (now : Nat) : Bool :=
  scheduler.lastCompleted.any fun completed => now - completed < scheduler.minDelay

/-- A trigger at the time `now` is run. -/
def admits (scheduler : Scheduler) (now : Nat) : Bool :=
  !scheduler.taken && !scheduler.withinDelay now

/-- The scheduler while a job runs. -/
def acquire (scheduler : Scheduler) : Scheduler := { scheduler with taken := true }

/-- The scheduler after a job. -/
def release (scheduler : Scheduler) : Scheduler := { scheduler with taken := false }

/-- The scheduler after a job that came to its end at the time `now`. -/
def complete (scheduler : Scheduler) (now : Nat) : Scheduler :=
  { scheduler with lastCompleted := some now }

end Scheduler

/-- The thread that a trigger runs its job on. -/
inductive Thread where
  /-- The thread of the trigger. -/
  | same
  /-- A thread of its own. -/
  | own
  deriving DecidableEq, Repr

/-- How a job ends. -/
inductive Ending where
  | finish
  | abort
  deriving DecidableEq, Repr

/-- A trigger: the time that passes before it, its thread, the triggers that its job issues, the
time that the job takes after them, and its end. A job ends at the time with which its end is recorded,
and `work` runs up to that time. -/
inductive Trigger where
  | mk (wait : Nat) (thread : Thread) (nested : List Trigger) (work : Nat) (ending : Ending)

/-- What becomes of a trigger. -/
inductive Outcome where
  /-- The job was not run. -/
  | dropped
  /-- The job came to its end; its own triggers had these outcomes. -/
  | ran (nested : List Outcome)
  /-- The job was aborted on its own thread. -/
  | lost
  /-- The job was aborted, and with it whoever issued the trigger. -/
  | aborted
  deriving Repr

/-- The outcome does not abort the issuer of the trigger. -/
def Outcome.isContained : Outcome → Bool
  | aborted => false
  | _ => true

/-- A scheduler and the time. -/
structure Moment where
  scheduler : Scheduler
  now : Nat
  deriving DecidableEq, Repr

namespace Moment

/-- A later moment. -/
def advance (moment : Moment) (time : Nat) : Moment := { moment with now := moment.now + time }

/-- The moment after a job that held the permit: one that came to its end is recorded. The time of the
record is that of the end, as `work` runs up to it. -/
def finish (moment : Moment) (completed : Bool) : Moment :=
  let released := moment.scheduler.release
  { moment with scheduler := if completed then released.complete moment.now else released }

end Moment

mutual

/-- What becomes of a trigger, and the moment after it. -/
def Trigger.fire (moment : Moment) : Trigger → Outcome × Moment
  | .mk wait thread nested work ending =>
    let arrived := moment.advance wait
    if arrived.scheduler.admits arrived.now then
      let running := { arrived with scheduler := arrived.scheduler.acquire }
      let (outcomes, whole, after) := Trigger.fireAll running nested
      let ended := after.advance work
      if whole && ending = .finish then (.ran outcomes, ended.finish true)
      else (if thread = .own then .lost else .aborted, ended.finish false)
    else (.dropped, arrived)

/-- What becomes of the triggers of a job, up to one that aborts it; whether none does; and the
moment after them. -/
def Trigger.fireAll (moment : Moment) : List Trigger → List Outcome × Bool × Moment
  | [] => ([], true, moment)
  | trigger :: rest =>
    let (outcome, after) := Trigger.fire moment trigger
    if outcome.isContained then
      let (outcomes, whole, last) := Trigger.fireAll after rest
      (outcome :: outcomes, whole, last)
    else ([outcome], false, after)

end

/-- What becomes of triggers that come one after the other, and the moment after them. -/
def Trigger.fireEach (moment : Moment) : List Trigger → List Outcome × Moment
  | [] => ([], moment)
  | trigger :: rest =>
    let (outcome, after) := trigger.fire moment
    let (outcomes, last) := Trigger.fireEach after rest
    (outcome :: outcomes, last)

end Localization

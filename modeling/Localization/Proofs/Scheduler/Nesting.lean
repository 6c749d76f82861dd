import Localization.Scheduler

/-
**Triggers that jobs issue, and jobs that are aborted.**

Everything that happens when triggers are fired one after the other is written down as events: a trigger is
dropped, or its job starts; what its own triggers make happen follows; then the job comes to its end or is
aborted. Each event says how it left the scheduler.

* `Trigger.Event`, `Trigger.events`, `eventsEach` — what happens when triggers are fired.
* `Trigger.fire_of_admits`, `fire_of_taken` — what one trigger does, with the triggers of its job.
* `Trigger.Lawful` — how an event should be behind others.
* `Trigger.Trails` — what the scheduler knows of the events before; `Trails.fire`, `Trails.fireEach`.
-/

namespace Localization

/-- A permit that is taken and given back is as it was. -/
theorem Scheduler.release_acquire {scheduler : Scheduler} (free : scheduler.taken = false) :
    scheduler.acquire.release = scheduler := by
  rw [release, acquire, ← free]

namespace Trigger

/-! ### Events -/

/-- What happens to a trigger or to its job. -/
inductive Happening where
  /-- A trigger comes, and its job is not run. -/
  | dropped
  /-- A trigger comes, and its job starts. -/
  | started
  /-- A job comes to its end. -/
  | finished
  /-- A job is aborted. -/
  | aborted
  deriving DecidableEq, Repr

/-- A trigger comes. -/
def Happening.isArrival : Happening → Bool
  | dropped | started => true
  | finished | aborted => false

/-- A job is over. -/
def Happening.isOver : Happening → Bool
  | finished | aborted => true
  | dropped | started => false

/-- What happens at last with a job that ends so. -/
def Happening.ofEnding : Ending → Happening
  | .finish => finished
  | .abort => aborted

@[simp]
theorem Happening.isOver_dropped : dropped.isOver = false := rfl

@[simp]
theorem Happening.isOver_started : started.isOver = false := rfl

@[simp]
theorem Happening.isOver_ofEnding (ending : Ending) : (ofEnding ending).isOver = true := by
  cases ending <;> rfl

theorem Happening.ofEnding_ne_started (ending : Ending) : ofEnding ending ≠ started := by
  cases ending <;> decide

/-- Something that happens, and the moment that it leaves. -/
structure Event where
  kind : Happening
  moment : Moment
  deriving DecidableEq, Repr

mutual

/-- What happens when a trigger is fired: it is dropped, or its job starts, issues its triggers, and is over
in the end. -/
def events (moment : Moment) : Trigger → List Event
  | .mk wait thread nested work ending =>
    let arrived := moment.advance wait
    match (Trigger.mk wait thread nested work ending).fire moment with
    | (.dropped, after) => [⟨.dropped, after⟩]
    | (outcome, after) =>
      let running := { arrived with scheduler := arrived.scheduler.acquire }
      let last := if outcome matches .ran _ then Happening.finished else .aborted
      ⟨.started, running⟩ :: (eventsAll running nested ++ [⟨last, after⟩])

/-- What happens with the triggers of a job, up to one that aborts it. -/
def eventsAll (moment : Moment) : List Trigger → List Event
  | [] => []
  | trigger :: rest =>
    let (outcome, after) := trigger.fire moment
    trigger.events moment ++ if outcome.isContained then eventsAll after rest else []

end

/-- What happens when triggers are fired one after the other. -/
def eventsEach (moment : Moment) : List Trigger → List Event
  | [] => []
  | trigger :: rest => trigger.events moment ++ eventsEach (trigger.fire moment).2 rest

/-- More jobs started than are over: some job runs. -/
def Busy (past : List Event) : Prop :=
  past.countP (·.kind.isOver) < past.countP (·.kind = .started)

/-- Every job that came to its end did so a quiet time before `now`. -/
def Quiet (minDelay : Nat) (past : List Event) (now : Nat) : Prop :=
  ∀ event ∈ past, event.kind = .finished → event.moment.now + minDelay ≤ now

/-- An event behind others is as it should be: the job of a trigger starts exactly if none runs and the quiet
time is over, and the permit is taken exactly while a job runs. -/
structure Lawful (minDelay : Nat) (past : List Event) (event : Event) : Prop where
  starts : event.kind.isArrival = true →
    (event.kind = .started ↔ ¬ Busy past ∧ Quiet minDelay past event.moment.now)
  taken : event.moment.scheduler.taken = true ↔ Busy (past ++ [event])

/-! ### One trigger -/

/-- The time that passes before a trigger. -/
def wait : Trigger → Nat
  | .mk wait .. => wait

/-- The triggers that the job of a trigger issues. -/
def nested : Trigger → List Trigger
  | .mk _ _ nested .. => nested

/-- How the job of a trigger ends. -/
def ending : Trigger → Ending
  | .mk _ _ _ _ ending => ending

/-- What becomes of a trigger whose job is run, where all triggers of the job are dropped. -/
def outcome : Trigger → Outcome
  | .mk _ _ nested _ .finish => .ran (nested.map fun _ => .dropped)
  | .mk _ .own _ _ .abort => .lost
  | .mk _ .same _ _ .abort => .aborted

/-- The time that passes before the last of some triggers. -/
def waits : List Trigger → Nat
  | [] => 0
  | trigger :: rest => trigger.wait + waits rest

variable {moment : Moment} {trigger : Trigger} {thread : Thread} {nested : List Trigger} {work time : Nat}
  {ending : Ending}

theorem advance_advance (moment : Moment) (first second : Nat) :
    (moment.advance first).advance second = moment.advance (first + second) := by
  simp [Moment.advance, Nat.add_assoc]

/-- While the permit is taken, a trigger is dropped. -/
theorem fire_of_taken (taken : moment.scheduler.taken = true) (trigger : Trigger) :
    trigger.fire moment = (.dropped, moment.advance trigger.wait) := by
  obtain ⟨time, thread, nested, work, ending⟩ := trigger
  have drops : ¬ (moment.advance time).scheduler.admits (moment.advance time).now = true := by
    simp [Moment.advance, Scheduler.admits, taken]
  rw [fire, if_neg drops]
  rfl

/-- **While the permit is taken, all triggers are dropped.** -/
theorem fireAll_of_taken (taken : moment.scheduler.taken = true) (triggers : List Trigger) :
    fireAll moment triggers =
      (triggers.map fun _ => .dropped, true, moment.advance (waits triggers)) := by
  induction triggers generalizing moment with
  | nil => rfl
  | cons trigger rest ih =>
    have later : (moment.advance trigger.wait).scheduler.taken = true := taken
    rw [fireAll, fire_of_taken taken]
    simp only [Outcome.isContained, if_true, ih later, advance_advance]
    rfl

/-- **A trigger that is admitted runs its job, and drops the triggers of it.** -/
theorem fire_of_admits (admits : (moment.advance time).scheduler.admits (moment.advance time).now = true) :
    (Trigger.mk time thread nested work ending).fire moment =
      ((Trigger.mk time thread nested work ending).outcome,
        Moment.finish ⟨moment.scheduler.acquire, moment.now + (time + waits nested + work)⟩
          (ending = .finish)) := by
  have runs (running : Moment) (acquired : running.scheduler.taken = true) :=
    fireAll_of_taken acquired nested
  rw [fire, if_pos admits]
  dsimp only
  rw [runs _ rfl]
  cases ending with
  | finish => simp [outcome, Moment.advance, Nat.add_assoc]
  | abort => cases thread <;> simp [outcome, Moment.advance, Nat.add_assoc]

/-- The permit is free if a trigger is admitted. -/
theorem free_of_admits (admits : (moment.advance time).scheduler.admits (moment.advance time).now = true) :
    moment.scheduler.taken = false := by
  simpa [Moment.advance] using (Bool.and_eq_true_iff.mp admits).1

/-- A trigger that is not admitted is dropped. -/
theorem fire_of_not_admits
    (drops : ¬ (moment.advance time).scheduler.admits (moment.advance time).now = true) :
    (Trigger.mk time thread nested work ending).fire moment = (.dropped, moment.advance time) := by
  rw [fire, if_neg drops]

theorem events_of_dropped {after : Moment} (drops : trigger.fire moment = (.dropped, after)) :
    trigger.events moment = [⟨.dropped, after⟩] := by
  cases trigger
  rw [events]
  dsimp only
  rw [drops]

/-- Triggers are dropped at the given times, and the scheduler stays as it is. -/
def drops (scheduler : Scheduler) (times : List Nat) : List Event :=
  times.map fun time => ⟨.dropped, ⟨scheduler, time⟩⟩

@[simp]
theorem countP_isOver_drops (scheduler : Scheduler) (times : List Nat) :
    (drops scheduler times).countP (·.kind.isOver) = 0 := by
  simp [drops, List.countP_eq_zero]

@[simp]
theorem countP_started_drops (scheduler : Scheduler) (times : List Nat) :
    (drops scheduler times).countP (·.kind = .started) = 0 := by
  simp [drops, List.countP_eq_zero]

/-- While the permit is taken, nothing happens but that triggers are dropped. -/
theorem eventsAll_of_taken (taken : moment.scheduler.taken = true) (triggers : List Trigger) :
    ∃ times : List Nat, times.length = triggers.length ∧
      eventsAll moment triggers = drops moment.scheduler times := by
  induction triggers generalizing moment with
  | nil => exact ⟨[], rfl, rfl⟩
  | cons trigger rest ih =>
    have later : (moment.advance trigger.wait).scheduler.taken = true := taken
    obtain ⟨times, many, same⟩ := ih later
    refine ⟨(moment.advance trigger.wait).now :: times, congrArg (· + 1) many, ?_⟩
    have drops := fire_of_taken taken trigger
    rw [eventsAll, drops, events_of_dropped drops]
    exact congrArg (_ :: ·) same

/-- What happens with a trigger that is admitted. -/
theorem events_of_admits (admits : (moment.advance time).scheduler.admits (moment.advance time).now = true) :
    (Trigger.mk time thread nested work ending).events moment =
      ⟨.started, ⟨moment.scheduler.acquire, moment.now + time⟩⟩ ::
        (eventsAll ⟨moment.scheduler.acquire, moment.now + time⟩ nested ++
          [⟨.ofEnding ending, ((Trigger.mk time thread nested work ending).fire moment).2⟩]) := by
  have fired : (Trigger.mk time thread nested work ending).fire moment = _ := fire_of_admits admits
  rw [events]
  dsimp only
  rw [fired]
  cases ending <;> cases thread <;> rfl

/-- **A trigger is dropped, or its job runs and none of the job's triggers does.** -/
theorem fire_cases (moment : Moment) (trigger : Trigger) :
    (trigger.fire moment).1 = .dropped ∧ (trigger.events moment).map (·.kind) = [.dropped] ∨
      (trigger.fire moment).1 = trigger.outcome ∧
        (trigger.events moment).map (·.kind) =
          .started :: (trigger.nested.map (fun _ => .dropped) ++ [.ofEnding trigger.ending]) := by
  obtain ⟨time, thread, nested, work, ending⟩ := trigger
  by_cases admits : (moment.advance time).scheduler.admits (moment.advance time).now = true
  · have taken : (Moment.mk moment.scheduler.acquire (moment.now + time)).scheduler.taken = true := rfl
    obtain ⟨times, many, inside⟩ := eventsAll_of_taken taken nested
    have kinds : (drops moment.scheduler.acquire times).map (·.kind) = nested.map fun _ => .dropped := by
      simp [drops, Function.comp_def, List.map_const', many]
    rw [events_of_admits admits, inside, fire_of_admits admits, List.map_cons, List.map_append, kinds]
    exact .inr ⟨rfl, rfl⟩
  · have dropped : (Trigger.mk time thread nested work ending).fire moment = _ := fire_of_not_admits admits
    rw [events_of_dropped dropped, dropped]
    exact .inl ⟨rfl, rfl⟩

/-- An aborted job leaves the scheduler as it was. -/
theorem scheduler_of_abort (moment : Moment) (aborts : trigger.ending = .abort) :
    (trigger.fire moment).2.scheduler = moment.scheduler := by
  obtain ⟨time, thread, nested, work, ending⟩ := trigger
  cases aborts
  by_cases admits : (moment.advance time).scheduler.admits (moment.advance time).now = true
  · rw [fire_of_admits admits]
    exact Scheduler.release_acquire (free_of_admits admits)
  · rw [fire_of_not_admits admits]
    rfl

/-! ### Events behind others -/

/-- Events behind others are all as they should be. -/
def Orderly (minDelay : Nat) (past events : List Event) : Prop :=
  ∀ before event after, events = before ++ event :: after → Lawful minDelay (past ++ before) event

variable {minDelay : Nat} {past first second : List Event} {event : Event}

theorem orderly_nil : Orderly minDelay past [] := by
  intro before event after split
  cases before <;> cases split

theorem orderly_cons :
    Orderly minDelay past (event :: first) ↔
      Lawful minDelay past event ∧ Orderly minDelay (past ++ [event]) first := by
  constructor
  · intro all
    refine ⟨by simpa using all [] event first rfl, fun before other after split => ?_⟩
    simpa using all (event :: before) other after (congrArg (event :: ·) split)
  · rintro ⟨head, later⟩ before other after split
    cases before with
    | nil =>
      cases split
      simpa using head
    | cons front others =>
      cases split
      simpa using later others other after rfl

theorem orderly_append :
    Orderly minDelay past (first ++ second) ↔
      Orderly minDelay past first ∧ Orderly minDelay (past ++ first) second := by
  induction first generalizing past with
  | nil => simp [orderly_nil]
  | cons event rest ih => simp [orderly_cons, ih, and_assoc]

/-- What a scheduler knows of the events before a moment at which no job runs. -/
structure Trails (minDelay : Nat) (past : List Event) (moment : Moment) : Prop where
  delay : moment.scheduler.minDelay = minDelay
  free : moment.scheduler.taken = false
  idle : past.countP (·.kind.isOver) = past.countP (·.kind = .started)
  latest : ∀ event ∈ past, event.kind = .finished →
    ∃ last, moment.scheduler.lastCompleted = some last ∧ event.moment.now ≤ last
  known : ∀ last, moment.scheduler.lastCompleted = some last →
    last ≤ moment.now ∧ ∃ event ∈ past, event.kind = .finished ∧ event.moment.now = last

/-- **A trigger is admitted exactly if the quiet time behind every job that came to its end is over.** -/
theorem Trails.admits_iff (trails : Trails minDelay past moment) (time : Nat) :
    (moment.advance time).scheduler.admits (moment.advance time).now = true ↔
      Quiet minDelay past (moment.now + time) := by
  have state : (moment.advance time).scheduler.admits (moment.advance time).now =
      !(moment.scheduler.withinDelay (moment.now + time)) := by
    simp [Scheduler.admits, Moment.advance, trails.free]
  rw [state, Bool.not_eq_true', Scheduler.withinDelay, trails.delay]
  cases completed : moment.scheduler.lastCompleted with
  | none =>
    refine iff_of_true rfl fun event member finished => ?_
    obtain ⟨last, recorded, -⟩ := trails.latest event member finished
    cases completed.symm.trans recorded
  | some last =>
    obtain ⟨before, event, member, finished, same⟩ := trails.known last completed
    rw [Option.any_some, decide_eq_false_iff_not]
    constructor
    · intro late other inside ended
      obtain ⟨recent, recorded, order⟩ := trails.latest other inside ended
      cases completed.symm.trans recorded
      omega
    · intro quiet
      have earlier := quiet event member finished
      omega

/-- Time passes, and no job comes to its end. -/
theorem Trails.pass (trails : Trails minDelay past moment)
    (unfinished : ∀ event ∈ first, event.kind ≠ .finished)
    (balanced : first.countP (·.kind.isOver) = first.countP (·.kind = .started)) (time : Nat) :
    Trails minDelay (past ++ first) (moment.advance time) where
  delay := trails.delay
  free := trails.free
  idle := by rw [List.countP_append, List.countP_append, trails.idle, balanced]
  latest event member finished := by
    rcases List.mem_append.mp member with before | new
    · exact trails.latest event before finished
    · exact absurd finished (unfinished event new)
  known last completed := by
    obtain ⟨before, event, member, finished, same⟩ := trails.known last completed
    exact ⟨Nat.le_add_right_of_le before, event, List.mem_append_left _ member, finished, same⟩

/-- A job comes to its end, and this is recorded. -/
theorem Trails.record (trails : Trails minDelay past moment)
    (unfinished : ∀ event ∈ first, event.kind ≠ .finished)
    (balanced : first.countP (·.kind.isOver) + 1 = first.countP (·.kind = .started)) (time : Nat) :
    let after := (moment.advance time).finish true
    Trails minDelay (past ++ (first ++ [⟨.finished, after⟩])) after where
  delay := trails.delay
  free := rfl
  idle := by
    have idle := trails.idle
    have ended : [Event.mk .finished ((moment.advance time).finish true)].countP (·.kind.isOver) = 1 := rfl
    have begun : [Event.mk .finished ((moment.advance time).finish true)].countP
        (·.kind = .started) = 0 := rfl
    simp only [List.countP_append]
    omega
  latest event member finished := by
    refine ⟨_, rfl, ?_⟩
    rcases List.mem_append.mp member with before | new
    · obtain ⟨last, completed, order⟩ := trails.latest event before finished
      have past := (trails.known last completed).1
      show event.moment.now ≤ moment.now + time
      omega
    · rcases List.mem_append.mp new with inside | last
      · exact absurd finished (unfinished event inside)
      · cases List.mem_singleton.mp last
        exact Nat.le_refl _
  known last completed := by
    cases completed
    exact ⟨Nat.le_refl _, _, List.mem_append_right _ (List.mem_append_right _ List.mem_cons_self), rfl, rfl⟩

/-- While a job runs, triggers are dropped as it should be. -/
theorem orderly_drops {scheduler : Scheduler} (taken : scheduler.taken = true) (busy : Busy past)
    (times : List Nat) : Orderly minDelay past (drops scheduler times) := by
  induction times generalizing past with
  | nil => exact orderly_nil
  | cons time rest ih =>
    have still : Busy (past ++ [⟨.dropped, ⟨scheduler, time⟩⟩]) := by
      simpa [Busy] using busy
    refine orderly_cons.mpr ⟨⟨fun _ => ?_, iff_of_true taken still⟩, ih still⟩
    exact iff_of_false nofun fun both => both.1 busy

/-- **What a job makes happen that is run is as it should be**, and the scheduler knows whether it came to
its end. -/
theorem Trails.run (trails : Trails minDelay past moment) (quiet : Quiet minDelay past (moment.now + time))
    (times : List Nat) (ending : Ending) (span : Nat) :
    let running : Moment := ⟨moment.scheduler.acquire, moment.now + time⟩
    let after := Moment.finish ⟨moment.scheduler.acquire, moment.now + span⟩ (ending = .finish)
    let run := ⟨.started, running⟩ :: (drops running.scheduler times ++ [⟨.ofEnding ending, after⟩])
    Orderly minDelay past run ∧ Trails minDelay (past ++ run) after := by
  intro running after run
  have idle : ¬ Busy past := by simp [Busy, trails.idle]
  have begins : Busy (past ++ [⟨.started, running⟩]) := by simp [Busy, trails.idle]
  have ends : ¬ Busy (past ++ [⟨.started, running⟩] ++ drops running.scheduler times ++
      [⟨.ofEnding ending, after⟩]) := by
    simp [Busy, trails.idle, Happening.ofEnding_ne_started]
  have free : after.scheduler.taken = false := by
    cases ending <;> rfl
  have unfinished : ∀ event ∈ (⟨.started, running⟩ :: drops running.scheduler times : List Event),
      event.kind ≠ .finished := by
    simp [drops]
  constructor
  · refine orderly_cons.mpr ⟨⟨fun _ => ?_, ?_⟩, orderly_append.mpr ⟨orderly_drops rfl begins times, ?_⟩⟩
    · exact iff_of_true rfl ⟨idle, quiet⟩
    · exact iff_of_true rfl begins
    · refine orderly_cons.mpr ⟨⟨fun arrival => ?_, iff_of_false (by simp [free]) ends⟩, orderly_nil⟩
      cases ending <;> cases arrival
  · cases ending with
    | finish => exact trails.record unfinished (by simp) span
    | abort =>
      have same : after = moment.advance span :=
        congrArg (Moment.mk · (moment.now + span)) (Scheduler.release_acquire trails.free)
      have ended : ∀ event ∈ run, event.kind ≠ .finished := by
        intro event member
        rcases List.mem_append.mp (show event ∈ (_ :: _) ++ [_] from member) with inside | last
        · exact unfinished event inside
        · cases List.mem_singleton.mp last
          exact nofun
      rw [same]
      exact trails.pass ended (by simp [run, Happening.ofEnding_ne_started]) span

/-- **What one trigger makes happen is as it should be**, and the scheduler knows of it. -/
theorem Trails.fire (trails : Trails minDelay past moment) (trigger : Trigger) :
    Orderly minDelay past (trigger.events moment) ∧
      Trails minDelay (past ++ trigger.events moment) (trigger.fire moment).2 := by
  obtain ⟨time, thread, nested, work, ending⟩ := trigger
  by_cases admits : (moment.advance time).scheduler.admits (moment.advance time).now = true
  · have taken : (Moment.mk moment.scheduler.acquire (moment.now + time)).scheduler.taken = true := rfl
    obtain ⟨times, -, inside⟩ := eventsAll_of_taken taken nested
    rw [events_of_admits admits, inside, fire_of_admits admits]
    exact trails.run ((trails.admits_iff time).mp admits) times ending _
  · have dropped : (Trigger.mk time thread nested work ending).fire moment = _ := fire_of_not_admits admits
    rw [events_of_dropped dropped, dropped]
    have idle : ¬ Busy past := by simp [Busy, trails.idle]
    have still : ¬ Busy (past ++ [⟨.dropped, moment.advance time⟩]) := by simpa [Busy] using idle
    refine ⟨orderly_cons.mpr ⟨⟨fun _ => ?_, ?_⟩, orderly_nil⟩, trails.pass ?_ rfl time⟩
    · exact iff_of_false nofun fun both => admits ((trails.admits_iff time).mpr both.2)
    · exact iff_of_false (by simp [Moment.advance, trails.free]) still
    · exact List.forall_mem_singleton.mpr nofun

/-- What happens when triggers are fired one after the other is as it should be. -/
theorem Trails.fireEach (trails : Trails minDelay past moment) (triggers : List Trigger) :
    Orderly minDelay past (eventsEach moment triggers) ∧
      Trails minDelay (past ++ eventsEach moment triggers) (Trigger.fireEach moment triggers).2 := by
  induction triggers generalizing past moment with
  | nil => exact ⟨orderly_nil, (List.append_nil past).symm ▸ trails⟩
  | cons trigger rest ih =>
    obtain ⟨first, reached⟩ := trails.fire trigger
    obtain ⟨others, last⟩ := ih reached
    rw [eventsEach, Trigger.fireEach]
    exact ⟨orderly_append.mpr ⟨first, others⟩, by simpa using last⟩

theorem trails_idle (minDelay now : Nat) : Trails minDelay [] ⟨.idle minDelay, now⟩ where
  delay := rfl
  free := rfl
  idle := rfl
  latest _ member := nomatch member
  known _ completed := nomatch completed

end Trigger

end Localization

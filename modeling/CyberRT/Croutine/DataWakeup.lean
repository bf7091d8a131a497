import CyberRT.Data.ChannelBuffer
import CyberRT.Lib.Machine
import CyberRT.Scheduler.NotifyProcessor

namespace CyberRT.DataWakeup
open Concur
universe u v w

/-- Where the loop of `CreateRoutineFactory` stands. A coroutine that is not running stands at its start. -/
inductive LoopPc
  | setDataWait
  | tryFetch
  | callback
  | setReady
  | swapContext
  deriving DecidableEq

/-- Where a processor stands with respect to the coroutine. -/
inductive ProcessorPc
  | acquire
  | updateState
  | skip
  | resume
  | running
  | release
  deriving DecidableEq

/-- One data-driven coroutine with its visitor, any number of threads in `Dispatch`, and any number of
processors. A thread outside `Dispatch` has no program counter. -/
structure State (δ : Type u) (π : Type v) (T : Type w) where
  visitor : DataVisitor T
  routine : CRoutine
  loop : LoopPc
  dispatchers : δ → Option NotifyPc
  processors : π → ProcessorPc

inductive Event (δ : Type u) (π : Type v) (T : Type w)
  | dispatch (d : δ) (msg : T)
  | notify (d : δ)
  | process (p : π) (now : Nat)

variable {δ : Type u} {π : Type v} {T : Type w}

/-- One access of the loop, which runs on a processor. -/
def loopStep (s : State δ π T) : State δ π T :=
  match s.loop with
  | .setDataWait => { s with routine := s.routine.setState .dataWait, loop := .tryFetch }
  | .tryFetch =>
    match s.visitor.tryFetch with
    | some (_, visitor) => { s with visitor := visitor, loop := .callback }
    | none => { s with loop := .swapContext }
  | .callback => { s with loop := .setReady }
  | .setReady => { s with routine := s.routine.setState .ready, loop := .swapContext }
  | .swapContext => { s with loop := .setDataWait }

/-- No call of `Dispatch` is in progress. -/
def State.Returned (s : State δ π T) : Prop :=
  ∀ d, s.dispatchers d = none

def State.Suspended (s : State δ π T) : Prop :=
  ∀ p, s.processors p ≠ .running

/-- A thread in `Dispatch` has yet to read the state, or to set the flag. -/
def State.Notifying (s : State δ π T) : Prop :=
  ∃ d, s.dispatchers d = some .readDataWait ∨ s.dispatchers d = some .setUpdateFlag

/-- The loop will fetch before it suspends the coroutine in `DATA_WAIT`. -/
def State.Fetching (s : State δ π T) : Prop :=
  s.routine.state ≠ .dataWait ∨ s.loop = .tryFetch ∨ s.loop = .callback ∨ s.loop = .setReady

structure Inv (s : State δ π T) : Prop where
  /-- Somebody will look at a message that was not fetched. -/
  noticed : s.visitor.Newer → s.Notifying ∨ s.routine.UpdatePending ∨ s.Fetching
  runs : s.loop ≠ .setDataWait → ∃ p, s.processors p = .running

theorem inv_setRoutine {s : State δ π T} (inv : Inv s) {routine : CRoutine}
    (pending : s.routine.UpdatePending → routine.UpdatePending)
    (waits : routine.state = .dataWait → s.routine.state = .dataWait) : Inv { s with routine := routine } where
  noticed := by
    intro newer
    rcases inv.noticed newer with notifying | flagged | ready | fetching
    · exact .inl notifying
    · exact .inr (.inl (pending flagged))
    · exact .inr (.inr (.inl fun waiting => ready (waits waiting)))
    · exact .inr (.inr (.inr fetching))
  runs := inv.runs

theorem step_acquire {s : State δ π T} (inv : Inv s) : Inv { s with routine := s.routine.acquire.2 } :=
  inv_setRoutine inv id id

theorem step_release {s : State δ π T} (inv : Inv s) : Inv { s with routine := s.routine.release } :=
  inv_setRoutine inv id id

theorem step_updateState {s : State δ π T} (inv : Inv s) (now : Nat) :
    Inv { s with routine := s.routine.updateState now } where
  noticed := by
    intro newer
    by_cases waits : (s.routine.updateState now).state = .dataWait
    · -- Then the flag was not clear, and nothing has changed.
      rw [CRoutine.updateState_waiting (.inl waits)]
      exact inv.noticed newer
    · exact .inr (.inr (.inl waits))
  runs := inv.runs

theorem step_resume {s : State δ π T} (inv : Inv s) : Inv { s with routine := s.routine.resume.2 } := by
  apply inv_setRoutine inv <;> unfold CRoutine.resume
  · split
    · exact id
    · split <;> exact id
  · split
    · exact nofun
    · split <;> exact id

theorem step_loop {s : State δ π T} (inv : Inv s) {p : π} (running : s.processors p = .running) :
    Inv (loopStep s) := by
  have runs : ∃ p, s.processors p = .running := ⟨p, running⟩
  unfold loopStep
  split
  · exact ⟨fun _ => .inr (.inr (.inr (.inl rfl))), fun _ => runs⟩
  · split
    · exact ⟨fun _ => .inr (.inr (.inr (.inr (.inl rfl)))), fun _ => runs⟩
    · rename_i failed
      exact ⟨fun newer => absurd newer (DataVisitor.not_newer_of_tryFetch failed), fun _ => runs⟩
  · exact ⟨fun _ => .inr (.inr (.inr (.inr (.inr rfl)))), fun _ => runs⟩
  · exact ⟨fun _ => .inr (.inr (.inl nofun)), fun _ => runs⟩
  · rename_i swaps
    refine ⟨fun newer => ?_, fun moved => absurd rfl moved⟩
    rcases inv.noticed newer with notifying | pending | ready | wrong | wrong | wrong
    · exact .inl notifying
    · exact .inr (.inl pending)
    · exact .inr (.inr (.inl ready))
    all_goals rw [swaps] at wrong; cases wrong

theorem loopStep_swapContext {s : State δ π T} (swaps : s.loop = .swapContext) : (loopStep s).loop = .setDataWait := by
  simp only [loopStep, swaps]

section Dispatch
variable [DecidableEq δ]

def State.dispatchGoto (s : State δ π T) (d : δ) (pc : Option NotifyPc) : State δ π T :=
  { s with dispatchers := Function.update s.dispatchers d pc }

theorem step_dispatch {s : State δ π T} (inv : Inv s) (d : δ) (visitor : DataVisitor T) :
    Inv ({ s with visitor := visitor }.dispatchGoto d (some .readDataWait)) where
  noticed := fun _ => .inl ⟨d, .inl (Function.update_self ..)⟩
  runs := inv.runs

/-- The thread that leaves a point from which it will look hands over to one of the other reasons. -/
theorem noticed_dispatchGoto {s : State δ π T} (inv : Inv s) {d : δ} {pc : Option NotifyPc}
    (handed : s.dispatchers d = some .readDataWait ∨ s.dispatchers d = some .setUpdateFlag →
      (s.dispatchGoto d pc).Notifying ∨ s.routine.UpdatePending ∨ s.Fetching) (newer : s.visitor.Newer) :
    (s.dispatchGoto d pc).Notifying ∨ s.routine.UpdatePending ∨ s.Fetching := by
  rcases inv.noticed newer with ⟨other, looks⟩ | noticed
  · by_cases same : other = d
    · subst same
      exact handed looks
    · refine .inl ⟨other, ?_⟩
      simpa only [State.dispatchGoto, Function.update_of_ne same] using looks
  · exact .inr noticed

end Dispatch

section Process
variable [DecidableEq π]

def State.goto (s : State δ π T) (p : π) (pc : ProcessorPc) : State δ π T :=
  { s with processors := Function.update s.processors p pc }

/-- One access of a processor; what it runs is the loop. -/
def processStep (s : State δ π T) (p : π) (now : Nat) : State δ π T :=
  match s.processors p with
  | .acquire =>
    let (free, routine) := s.routine.acquire
    { s with routine := routine }.goto p (if free then .updateState else .acquire)
  | .updateState =>
    let routine := s.routine.updateState now
    { s with routine := routine }.goto p (if routine.state = RoutineState.ready then .resume else .skip)
  | .skip => { s with routine := s.routine.release }.goto p .acquire
  | .resume =>
    let (switched, routine) := s.routine.resume
    { s with routine := routine }.goto p (if switched then .running else .release)
  | .running => (loopStep s).goto p (if s.loop = .swapContext then .release else .running)
  | .release => { s with routine := s.routine.release }.goto p .acquire

theorem inv_goto {s : State δ π T} (inv : Inv s) {p : π} {pc : ProcessorPc}
    (stays : s.loop ≠ .setDataWait → s.processors p = .running → pc = .running) : Inv (s.goto p pc) where
  noticed := inv.noticed
  runs := by
    intro moved
    obtain ⟨q, running⟩ := inv.runs moved
    refine ⟨q, ?_⟩
    by_cases same : q = p
    · subst same
      simpa only [State.goto, Function.update_self] using stays moved running
    · simpa only [State.goto, Function.update_of_ne same] using running

theorem step_process {s : State δ π T} (inv : Inv s) (p : π) (now : Nat) : Inv (processStep s p now) := by
  have other {pc : ProcessorPc} {routine : CRoutine} (atPc : s.processors p = pc) (stopped : pc ≠ .running)
      (kept : Inv { s with routine := routine }) (pc' : ProcessorPc) : Inv ({ s with routine := routine }.goto p pc') :=
    inv_goto kept fun _ running => absurd (atPc.symm.trans running) stopped
  unfold processStep
  split
  · rename_i atPc
    exact other atPc nofun (step_acquire inv) _
  · rename_i atPc
    exact other atPc nofun (step_updateState inv now) _
  · rename_i atPc
    exact other atPc nofun (step_release inv) _
  · rename_i atPc
    exact other atPc nofun (step_resume inv) _
  · rename_i running
    refine inv_goto (step_loop inv running) fun moved _ => ?_
    rw [if_neg fun swaps => moved (loopStep_swapContext swaps)]
  · rename_i atPc
    exact other atPc nofun (step_release inv) _

end Process

variable [DecidableEq δ] [DecidableEq π]

def step (s : State δ π T) : Event δ π T → Option (State δ π T)
  | .dispatch d msg =>
    match s.dispatchers d with
    | none => some ({ s with visitor := { s.visitor with buffer := s.visitor.buffer.fill msg } }.dispatchGoto d
        (some .readDataWait))
    | some _ => none
  | .notify d =>
    match s.dispatchers d with
    | none => none
    | some .notify => some (s.dispatchGoto d none)
    | some pc =>
      let (routine, pc) := pc.act s.routine
      some ({ s with routine := routine }.dispatchGoto d (some pc))
  | .process p now => some (processStep s p now)

/-- The coroutine has been created at time `now` and its callback is registered. -/
def machine (δ : Type u) (π : Type v) (T : Type w) [DecidableEq δ] [DecidableEq π] (queueSize now : Nat) :
    Machine (State δ π T) (Event δ π T) where
  init := ⟨.new queueSize, .new now, .setDataWait, fun _ => none, fun _ => .acquire⟩
  step := step

theorem inv_init (queueSize now : Nat) : Inv (machine δ π T queueSize now).init where
  noticed := fun _ => .inr (.inr (.inl nofun))
  runs := fun moved => absurd rfl moved

theorem step_notify {s s' : State δ π T} {d : δ} (inv : Inv s) (stepped : step s (.notify d) = some s') : Inv s' := by
  simp only [step] at stepped
  split at stepped
  · cases stepped
  · rename_i notified
    cases stepped
    refine ⟨noticed_dispatchGoto inv ?_, inv.runs⟩
    rw [notified]
    rintro (wrong | wrong) <;> cases wrong
  · rename_i pc _ atPc
    cases stepped
    cases pc with
    | readDataWait =>
      refine ⟨noticed_dispatchGoto inv fun _ => ?_, inv.runs⟩
      by_cases waits : s.routine.state = .dataWait
      · refine .inl ⟨d, .inr ?_⟩
        simp only [State.dispatchGoto, NotifyPc.act, waits, if_true, Function.update_self]
      · exact .inr (.inr (.inl waits))
    | readIoWait =>
      refine ⟨noticed_dispatchGoto inv ?_, inv.runs⟩
      rw [atPc]
      rintro (wrong | wrong) <;> cases wrong
    | setUpdateFlag => exact ⟨fun _ => .inr (.inl rfl), inv.runs⟩
    | notify => contradiction

theorem step_inv {s s' : State δ π T} {e : Event δ π T} (inv : Inv s) (stepped : step s e = some s') : Inv s' := by
  cases e with
  | dispatch d msg =>
    simp only [step] at stepped
    split at stepped
    · cases stepped
      exact step_dispatch inv d _
    · cases stepped
  | notify d => exact step_notify inv stepped
  | process p now =>
    cases stepped
    exact step_process inv p now

omit [DecidableEq δ] [DecidableEq π] in
theorem Inv.no_loss {s : State δ π T} (inv : Inv s) :
    ¬ (s.Returned ∧ s.visitor.Newer ∧ s.Suspended ∧ s.routine.state = .dataWait ∧ ¬ s.routine.UpdatePending) := by
  rintro ⟨returned, newer, suspended, waits, settled⟩
  have atStart : s.loop = .setDataWait := by
    by_contra moved
    obtain ⟨p, running⟩ := inv.runs moved
    exact suspended p running
  rcases inv.noticed newer with ⟨d, looks⟩ | pending | fetching
  · rw [returned d] at looks
    rcases looks with wrong | wrong <;> cases wrong
  · exact settled pending
  · unfold State.Fetching at fetching
    simp [waits, atStart] at fetching

/-- No wake-up is lost: a message that is newer than the last one fetched does not lie in the buffer of a
coroutine that is suspended in `DATA_WAIT` and has no update pending, once every dispatch has returned. -/
theorem no_lost_wakeup {queueSize now : Nat} {s : State δ π T} (reach : (machine δ π T queueSize now).Reach s) :
    ¬ (s.Returned ∧ s.visitor.Newer ∧ s.Suspended ∧ s.routine.state = .dataWait ∧ ¬ s.routine.UpdatePending) := by
  have inv : Inv s := reach.invariant (inv_init queueSize now) fun _ _ _ inv stepped => step_inv inv stepped
  exact inv.no_loss

/-- The loop waits for data, and a message comes between its failing fetch and the end of `Resume`. The
processor that has run it tries again before the notifier sets the flag. -/
def lateMessage : List (Event Nat Nat String) :=
  [.process 0 0, .process 0 0, .process 0 0, .process 0 0, .process 0 0, .dispatch 0 "hello",
    .process 0 0, .process 0 0, .process 0 0, .process 0 0, .notify 0, .process 0 0, .notify 0, .notify 0]

theorem lateMessage_pending :
    let s := (machine Nat Nat String 1 0).stateAt lateMessage 14
    (machine Nat Nat String 1 0).Reach s ∧ s.Returned ∧ s.visitor.Newer ∧ s.Suspended ∧
      s.routine.state = .dataWait ∧ s.routine.UpdatePending := by
  intro s
  have reach := Machine.stateAt_reach (M := machine Nat Nat String 1 0) lateMessage rfl
  have returned : s.Returned := by
    intro d
    rcases d with _ | d <;> rfl
  have suspended : s.Suspended := by
    intro p
    rcases p with _ | p <;> exact nofun
  refine ⟨reach, returned, by decide, suspended, by decide, ?_⟩
  by_contra settled
  exact no_lost_wakeup reach ⟨returned, by decide, suspended, by decide, settled⟩

end CyberRT.DataWakeup

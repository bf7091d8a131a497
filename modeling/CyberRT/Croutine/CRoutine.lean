import Mathlib.Init

namespace CyberRT

inductive RoutineState
  | ready
  | finished
  | sleep
  | ioWait
  | dataWait
  deriving DecidableEq

/-- The fields of a coroutine that processors and notifiers share. The flag `updated` is clear while an
update is pending. -/
structure CRoutine where
  state : RoutineState
  lock : Bool
  updated : Bool
  wakeTime : Nat
  forceStop : Bool
  deriving DecidableEq

namespace CRoutine

def new (now : Nat) : CRoutine :=
  ⟨.ready, false, true, now, false⟩

def setState (cr : CRoutine) (state : RoutineState) : CRoutine :=
  { cr with state := state }

/-- Whether the lock was free, and the coroutine after the test-and-set. -/
def acquire (cr : CRoutine) : Bool × CRoutine :=
  (!cr.lock, { cr with lock := true })

def release (cr : CRoutine) : CRoutine :=
  { cr with lock := false }

def stop (cr : CRoutine) : CRoutine :=
  { cr with forceStop := true }

def setUpdateFlag (cr : CRoutine) : CRoutine :=
  { cr with updated := false }

def UpdatePending (cr : CRoutine) : Prop :=
  cr.updated = false

instance (cr : CRoutine) : Decidable cr.UpdatePending :=
  inferInstanceAs (Decidable (_ = _))

/-- In a state from which an update makes it ready. -/
def Waiting (cr : CRoutine) : Prop :=
  cr.state = .dataWait ∨ cr.state = .ioWait

instance (cr : CRoutine) : Decidable cr.Waiting :=
  inferInstanceAs (Decidable (_ ∨ _))

/-- The coroutine after `UpdateState`, which returns its state. The test-and-set of the flag is its one
atomic access. -/
def updateState (cr : CRoutine) (now : Nat) : CRoutine :=
  if cr.state = .sleep ∧ now > cr.wakeTime then { cr with state := .ready }
  else if cr.UpdatePending then
    { cr with updated := true, state := if cr.Waiting then .ready else cr.state }
  else cr

/-- The start of `Resume`: whether the context is switched to that of the coroutine. -/
def resume (cr : CRoutine) : Bool × CRoutine :=
  if cr.forceStop then (false, { cr with state := .finished })
  else if cr.state ≠ .ready then (false, cr)
  else (true, cr)

/-- No coroutine is left waiting with an update pending. -/
theorem updateState_taken (cr : CRoutine) (now : Nat) :
    ¬ ((cr.updateState now).Waiting ∧ (cr.updateState now).UpdatePending) := by
  unfold updateState
  split
  · rintro ⟨waiting | waiting, _⟩ <;> cases waiting
  split
  · rintro ⟨_, pending⟩
    cases pending
  · rintro ⟨_, pending⟩
    contradiction

/-- An update that is taken makes a waiting coroutine ready. -/
theorem updateState_waiting {cr : CRoutine} {now : Nat} (waits : (cr.updateState now).Waiting) :
    cr.updateState now = cr := by
  revert waits
  unfold updateState
  split
  · rintro (waiting | waiting) <;> cases waiting
  split
  · intro waits
    by_cases waiting : cr.Waiting
    · rw [if_pos waiting] at waits
      rcases waits with waits | waits <;> cases waits
    · rw [if_neg waiting] at waits
      exact absurd waits waiting
  · exact fun _ => rfl

end CRoutine

end CyberRT

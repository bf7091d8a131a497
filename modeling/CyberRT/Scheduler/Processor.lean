import CyberRT.Croutine.CRoutine

namespace CyberRT.Processor

/-- Where a processor stands with respect to one coroutine: `NextRoutine` acquires it, updates its state and
returns it or goes on; `Run` resumes and releases it. -/
inductive Pc
  | acquire
  | updateState
  | skip
  | resume
  | running
  | release
  deriving DecidableEq

/-- One access of a processor to the coroutine. While it is running, the code of the coroutine moves. -/
def Pc.act (cr : CRoutine) (now : Nat) : Pc → CRoutine × Pc
  | .acquire =>
    let (free, cr) := cr.acquire
    (cr, if free then .updateState else .acquire)
  | .updateState =>
    let cr := cr.updateState now
    (cr, if cr.state = RoutineState.ready then .resume else .skip)
  | .skip => (cr.release, .acquire)
  | .resume =>
    let (switched, cr) := cr.resume
    (cr, if switched then .running else .release)
  | .running => (cr, .running)
  | .release => (cr.release, .acquire)

/-- A processor that leaves the coroutine waiting has changed neither its state nor its update flag. -/
theorem Pc.act_waiting {cr : CRoutine} {now : Nat} {pc : Pc} (waits : (pc.act cr now).1.Waiting) :
    (pc.act cr now).1.state = cr.state ∧ (pc.act cr now).1.updated = cr.updated := by
  cases pc with
  | acquire | skip | running | release => exact ⟨rfl, rfl⟩
  | updateState =>
    have same : (Pc.updateState.act cr now).1 = cr := CRoutine.updateState_waiting waits
    rw [same]
    exact ⟨rfl, rfl⟩
  | resume =>
    simp only [Pc.act, CRoutine.resume] at waits ⊢
    split at waits
    · rcases waits with waits | waits <;> cases waits
    · rename_i going
      rw [if_neg going]
      split <;> exact ⟨rfl, rfl⟩

/-- A processor that goes on with a coroutine has its lock, which it has just taken or had before. -/
theorem Pc.act_lock {cr : CRoutine} {now : Nat} {pc : Pc} (held : pc ≠ .acquire → cr.lock = true)
    (goes : (pc.act cr now).2 ≠ .acquire) :
    (pc.act cr now).1.lock = true ∧ (pc = .acquire → cr.lock = false) := by
  cases pc with
  | acquire =>
    refine ⟨rfl, fun _ => ?_⟩
    cases free : cr.lock with
    | false => rfl
    | true => simp [Pc.act, CRoutine.acquire, free] at goes
  | updateState =>
    refine ⟨?_, nofun⟩
    simp only [Pc.act, CRoutine.updateState]
    split
    · exact held nofun
    split <;> exact held nofun
  | resume =>
    refine ⟨?_, nofun⟩
    simp only [Pc.act, CRoutine.resume]
    split
    · exact held nofun
    split <;> exact held nofun
  | running => exact ⟨held nofun, nofun⟩
  | skip | release => exact absurd rfl goes

/-- A processor that acquires in vain finds the lock taken. -/
theorem Pc.act_acquire_lock {cr : CRoutine} {now : Nat} (failed : (Pc.acquire.act cr now).2 = .acquire) :
    cr.lock = true := by
  cases free : cr.lock with
  | true => rfl
  | false => simp [Pc.act, CRoutine.acquire, free] at failed

/-- Only a coroutine that is ready is switched to. -/
theorem Pc.act_running {cr : CRoutine} {now : Nat} {pc : Pc} (other : pc ≠ .running)
    (switched : (pc.act cr now).2 = .running) : (pc.act cr now).1.state = .ready := by
  cases pc with
  | running => exact absurd rfl other
  | acquire | updateState =>
    simp only [Pc.act] at switched
    split at switched <;> cases switched
  | skip | release => cases switched
  | resume =>
    simp only [Pc.act, CRoutine.resume] at switched ⊢
    by_cases stopped : cr.forceStop
    · simp [stopped] at switched
    · by_cases ready : cr.state = .ready
      · simp [stopped, ready]
      · simp [stopped, ready] at switched

end CyberRT.Processor

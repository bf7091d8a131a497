import CyberRT.Timer.TimingWheel
import Mathlib.Algebra.Group.Int.Defs

namespace CyberRT
universe u

structure TimerOption (κ : Type u) where
  period : Nat
  callback : κ
  oneshot : Bool
  deriving DecidableEq

namespace Timer
open TimingWheel (timerResolutionMs timerMaxIntervalMs)
variable {κ : Type u}

/-- The function that `InitTimerTask` makes of the callback of the user. -/
inductive TaskCallback (κ : Type u)
  | oneshot (callback : κ)
  | periodic (callback : κ)
  deriving DecidableEq

/-- The fields of a task that a timer uses. -/
structure Task (κ : Type u) where
  timerId : Nat
  callback : TaskCallback κ
  intervalMs : Nat
  nextFireDurationMs : Nat
  accumulatedErrorNs : Int
  lastExecuteTimeNs : Nat
  deriving DecidableEq

/-- The task that `InitTimerTask` puts into `task_`, unless it refuses the period. -/
def initTimerTask (timerId : Nat) (opt : TimerOption κ) : Option (Task κ) :=
  if opt.period = 0 then none
  else if opt.period ≥ timerMaxIntervalMs then none
  else some
    { timerId := timerId
      callback := if opt.oneshot then .oneshot opt.callback else .periodic opt.callback
      intervalMs := opt.period
      nextFireDurationMs := opt.period
      accumulatedErrorNs := 0
      lastExecuteTimeNs := 0 }

/-- The value of 64-bit arithmetic without and with a sign. -/
def uint64 (x : Int) : Int :=
  x % 2 ^ 64

def int64 (x : Int) : Int :=
  x.bmod (2 ^ 64)

/-- `llround(static_cast<double>(ns) / 1e6)`, the nearest number of milliseconds. A half is rounded away from zero. -/
def llroundMs (ns : Int) : Int :=
  if 0 ≤ ns then (ns + 500000) / 1000000 else -((500000 - ns) / 1000000)

/-- The task when its periodic callback is about to add it again; the callback of the user ran from `start` to `end_`. -/
def Task.fire (task : Task κ) (start end_ : Nat) : Task κ :=
  let executeTimeMs := llroundMs (uint64 (end_ - start))
  let accumulatedErrorNs :=
    if task.lastExecuteTimeNs = 0 then task.accumulatedErrorNs
    else int64 (task.accumulatedErrorNs +
      uint64 (start - task.lastExecuteTimeNs - task.intervalMs * 1000000))
  let accumulatedErrorMs := llroundMs accumulatedErrorNs
  { task with
    accumulatedErrorNs
    lastExecuteTimeNs := start
    nextFireDurationMs :=
      if executeTimeMs ≥ task.intervalMs then timerResolutionMs
      else if int64 (uint64 (task.intervalMs - executeTimeMs - timerResolutionMs)) ≥ accumulatedErrorMs then
        (uint64 (task.intervalMs - executeTimeMs - accumulatedErrorMs)).toNat
      else timerResolutionMs }

theorem initTimerTask_eq_some {timerId : Nat} {opt : TimerOption κ} {task : Task κ}
    (accepted : initTimerTask timerId opt = some task) :
    1 ≤ opt.period ∧ opt.period < timerMaxIntervalMs ∧ task.intervalMs = opt.period ∧
      task.nextFireDurationMs = opt.period ∧ task.accumulatedErrorNs = 0 ∧ task.lastExecuteTimeNs = 0 := by
  unfold initTimerTask at accepted
  split at accepted
  · cases accepted
  · split at accepted
    · cases accepted
    · rename_i positive small
      cases accepted
      exact ⟨Nat.one_le_iff_ne_zero.mpr positive, Nat.lt_of_not_le small, rfl, rfl, rfl, rfl⟩

/-- The task is made exactly for the periods that the wheel can hold. -/
theorem initTimerTask_isSome {timerId : Nat} {opt : TimerOption κ} :
    (initTimerTask timerId opt).isSome ↔ 1 ≤ opt.period ∧ opt.period < timerMaxIntervalMs := by
  constructor
  · intro some_
    obtain ⟨task, accepted⟩ := Option.isSome_iff_exists.mp some_
    have spec := initTimerTask_eq_some accepted
    exact ⟨spec.1, spec.2.1⟩
  · rintro ⟨positive, small⟩
    rw [initTimerTask, if_neg (Nat.ne_of_gt positive), if_neg (Nat.not_le_of_lt small)]
    rfl

theorem int64_add_uint64 (x y : Int) : int64 (x + uint64 y) = int64 (x + y) := by
  exact Int.add_emod_bmod ..

theorem int64_uint64 (x : Int) : int64 (uint64 x) = int64 x :=
  Int.emod_bmod x _

theorem int64_of_fits {x : Int} (lower : -(2 ^ 63) ≤ x) (upper : x < 2 ^ 63) : int64 x = x :=
  Int.bmod_eq_of_le (by omega) (by omega)

theorem uint64_of_fits {x : Int} (lower : 0 ≤ x) (upper : x < 2 ^ 64) : uint64 x = x :=
  Int.emod_eq_of_lt lower upper

/-- The rounded value is no more than half a millisecond off. -/
theorem llroundMs_bounds (ns : Int) : 1000000 * llroundMs ns ≤ ns + 500000 ∧ ns ≤ 1000000 * llroundMs ns + 500000 := by
  unfold llroundMs
  split <;> omega

end Timer

end CyberRT

import CyberRT.Timer.TimerTask

namespace CyberRT.Timer
open Concur TimingWheel
universe u
variable {κ : Type u}

/-- The time of the tick that posts the callback of a task added at time `addedNs`. The ticks are at the multiples of
the resolution. -/
def tickNs (addedNs nextFireDurationMs : Nat) : Nat :=
  timerResolutionMs * 1000000 * (addedNs / (timerResolutionMs * 1000000) + ticks nextFireDurationMs)

/-- The clock as a periodic callback reads it: before and after the callback of the user, and when it adds the task
again. It counts nanoseconds in a signed word. -/
structure Firing where
  start : Nat
  end_ : Nat
  added : Nat

/-- A periodic timer between two runs of its callback: when its task was added last, how often the callback has run,
and when it did so first. -/
structure Periodic (κ : Type u) where
  task : Task κ
  addedNs : Nat
  firings : Nat
  firstNs : Nat
  deriving DecidableEq

namespace Periodic

def fire (s : Periodic κ) (f : Firing) : Periodic κ where
  task := s.task.fire f.start f.end_
  addedNs := f.added
  firings := s.firings + 1
  firstNs := if s.firings = 0 then f.start else s.firstNs

/-- The callback starts at its tick or later, and takes any time. -/
def Fires (s : Periodic κ) (f : Firing) : Prop :=
  tickNs s.addedNs s.task.nextFireDurationMs ≤ f.start ∧ f.start ≤ f.end_ ∧ f.end_ ≤ f.added ∧ f.added < 2 ^ 63

instance (s : Periodic κ) (f : Firing) : Decidable (s.Fires f) :=
  inferInstanceAs (Decidable (_ ∧ _ ∧ _ ∧ _))

/-- The timer from the time on at which `Start` has added its task. -/
def machine (task : Task κ) (addedNs : Nat) : Machine (Periodic κ) Firing where
  init := ⟨task, addedNs, 0, 0⟩
  step s f :=
    match s.task.callback with
    | .oneshot _ => none
    | .periodic _ => if s.Fires f then some (s.fire f) else none

end Periodic

theorem Task.fire_first {task : Task κ} {start end_ : Nat} (first : task.lastExecuteTimeNs = 0) :
    (task.fire start end_).accumulatedErrorNs = task.accumulatedErrorNs := by
  simp only [Task.fire, if_pos first]

/-- The error grows by what the callback is late, counted from its last run. -/
theorem Task.fire_again {task : Task κ} {start end_ : Nat} (again : task.lastExecuteTimeNs ≠ 0) :
    (task.fire start end_).accumulatedErrorNs = int64 (task.accumulatedErrorNs +
      (start - task.lastExecuteTimeNs - task.intervalMs * 1000000)) := by
  simp only [Task.fire, if_neg again, int64_add_uint64]

/-- The three branches of the callback, with the execution time and the error in whole milliseconds. -/
theorem Task.fire_next {task task' : Task κ} {start end_ : Nat} (fired : task' = task.fire start end_)
    (ordered : start ≤ end_) (fits : end_ < 2 ^ 63) (interval : task.intervalMs < timerMaxIntervalMs)
    (ahead : -3000000 < task'.accumulatedErrorNs) (bound : task'.accumulatedErrorNs < 2 ^ 63) :
    (task.intervalMs ≤ llroundMs (end_ - start) ∧ task'.nextFireDurationMs = timerResolutionMs) ∨
      (llroundMs task'.accumulatedErrorNs ≤ task.intervalMs - llroundMs (end_ - start) - timerResolutionMs ∧
        (task'.nextFireDurationMs : Int) =
          task.intervalMs - llroundMs (end_ - start) - llroundMs task'.accumulatedErrorNs) ∨
      (task.intervalMs - llroundMs (end_ - start) - timerResolutionMs < llroundMs task'.accumulatedErrorNs ∧
        task'.nextFireDurationMs = timerResolutionMs) := by
  have executeMs := llroundMs_bounds (end_ - start)
  have errorMs := llroundMs_bounds task'.accumulatedErrorNs
  have next : task'.nextFireDurationMs =
      if llroundMs (end_ - start) ≥ task.intervalMs then timerResolutionMs
      else if int64 (uint64 (task.intervalMs - llroundMs (end_ - start) - timerResolutionMs)) ≥
          llroundMs task'.accumulatedErrorNs then
        (uint64 (task.intervalMs - llroundMs (end_ - start) - llroundMs task'.accumulatedErrorNs)).toNat
      else timerResolutionMs := by
    have time : uint64 (end_ - start) = end_ - start := uint64_of_fits (by omega) (by omega)
    rw [fired, ← time]
    rfl
  unfold timerMaxIntervalMs workWheelSize assistantWheelSize at interval
  unfold timerResolutionMs at *
  rw [next]
  split
  · rename_i long
    exact .inl ⟨long, rfl⟩
  · rename_i short
    rw [int64_uint64, int64_of_fits (by omega) (by omega)]
    split
    · rename_i behind
      rw [uint64_of_fits (by omega) (by omega)]
      exact .inr (.inl ⟨behind, Int.toNat_of_nonneg (by omega)⟩)
    · rename_i behind
      exact .inr (.inr ⟨Int.lt_of_not_ge behind, rfl⟩)

/-- The next tick comes after the task is added, and at most one tick before the duration is over. -/
theorem tickNs_bounds (addedNs : Nat) {nextFireDurationMs : Nat} (positive : 1 ≤ nextFireDurationMs) :
    addedNs < tickNs addedNs nextFireDurationMs ∧
      addedNs + 1000000 * nextFireDurationMs < tickNs addedNs nextFireDurationMs + 2000000 := by
  unfold tickNs ticks timerResolutionMs
  omega

/-- Between two ticks there are whole ticks. -/
theorem tickNs_gap {addedNs addedNs' next next' intervalMs : Nat}
    (apart : tickNs addedNs next + 1000000 * intervalMs < tickNs addedNs' next' + 500000) :
    tickNs addedNs next + 1000000 * intervalMs ≤ tickNs addedNs' next' := by
  unfold tickNs timerResolutionMs at *
  omega

namespace Periodic
variable {s : Periodic κ} {f : Firing}

/-- The nominal time of the next firing, a whole number of periods after the first. -/
def nominalNs (s : Periodic κ) : Nat :=
  s.firstNs + s.firings * (s.task.intervalMs * 1000000)

/-- What is known once the callback has run: the error is how late its last run was, and the next tick is less than
3 ms early. -/
structure Late (s : Periodic κ) : Prop where
  executed : 0 < s.task.lastExecuteTimeNs
  fits : s.task.lastExecuteTimeNs < 2 ^ 63
  next : timerResolutionMs ≤ s.task.nextFireDurationMs ∧ s.task.nextFireDurationMs ≤ s.task.intervalMs + 3
  error : s.task.accumulatedErrorNs = s.task.lastExecuteTimeNs + s.task.intervalMs * 1000000 - s.nominalNs
  ahead : -3000000 < s.task.accumulatedErrorNs
  tick : s.nominalNs < tickNs s.addedNs s.task.nextFireDurationMs + 3000000

structure Inv (intervalMs : Nat) (s : Periodic κ) : Prop where
  interval : s.task.intervalMs = intervalMs
  first : s.firings = 0 → s.task.accumulatedErrorNs = 0 ∧ s.task.lastExecuteTimeNs = 0 ∧
    1 ≤ s.task.nextFireDurationMs
  late : 0 < s.firings → s.Late

theorem Inv.positive {intervalMs : Nat} (inv : s.Inv intervalMs) : 1 ≤ s.task.nextFireDurationMs := by
  rcases Nat.eq_zero_or_pos s.firings with none_ | some_
  · exact (inv.first none_).2.2
  · exact (inv.late some_).next.1.trans' (by decide)

theorem fire_nominalNs (s : Periodic κ) (f : Firing) :
    (s.fire f).nominalNs = (if s.firings = 0 then f.start else s.nominalNs) + s.task.intervalMs * 1000000 := by
  unfold nominalNs
  simp only [fire, Nat.succ_mul]
  have same : (s.task.fire f.start f.end_).intervalMs = s.task.intervalMs := rfl
  rw [same]
  split
  · rename_i none_
    rw [none_, Nat.zero_mul, Nat.zero_add]
  · rw [Nat.add_assoc]

/-- The error after a firing is its distance from the nominal time, which it is not more than 3 ms before. -/
theorem Inv.fire_error {intervalMs : Nat} (inv : s.Inv intervalMs) (fires : s.Fires f) :
    (s.fire f).task.accumulatedErrorNs = f.start + s.task.intervalMs * 1000000 - (s.fire f).nominalNs ∧
      -3000000 < (s.fire f).task.accumulatedErrorNs ∧ (s.fire f).task.accumulatedErrorNs < 2 ^ 63 := by
  obtain ⟨due, ordered, added, fits⟩ := fires
  rw [fire_nominalNs]
  rcases Nat.eq_zero_or_pos s.firings with none_ | some_
  · obtain ⟨zero, never, -⟩ := inv.first none_
    have error : (s.fire f).task.accumulatedErrorNs = 0 := (Task.fire_first never).trans zero
    rw [error, if_pos none_]
    exact ⟨by omega, by decide, by decide⟩
  · have late := inv.late some_
    have error : (s.fire f).task.accumulatedErrorNs = int64 (f.start - s.nominalNs) := by
      refine (Task.fire_again late.executed.ne').trans (congrArg int64 ?_)
      rw [late.error]
      omega
    have lower := late.tick
    rw [if_neg some_.ne', error, int64_of_fits (by omega) (by omega)]
    omega

/-- Whichever branch the callback takes, it asks for a tick that is less than 3 ms before the nominal time. -/
theorem Inv.fire (inv : s.Inv s.task.intervalMs) (interval : s.task.intervalMs < timerMaxIntervalMs)
    (fires : s.Fires f) : (s.fire f).Inv s.task.intervalMs := by
  obtain ⟨error, ahead, bound⟩ := inv.fire_error fires
  have nominal := fire_nominalNs s f
  obtain ⟨due, ordered, added, fits⟩ := fires
  have soon := (tickNs_bounds s.addedNs inv.positive).1
  have executeMs := llroundMs_bounds (f.end_ - f.start)
  have errorMs := llroundMs_bounds (s.fire f).task.accumulatedErrorNs
  have branch :=
    Task.fire_next (rfl : (s.fire f).task = s.task.fire f.start f.end_) ordered (by omega) interval ahead bound
  have next : timerResolutionMs ≤ (s.fire f).task.nextFireDurationMs ∧
      (s.fire f).task.nextFireDurationMs ≤ s.task.intervalMs + 3 := by
    unfold timerResolutionMs at *
    omega
  have tick := tickNs_bounds f.added (next.1.trans' (by decide : 1 ≤ timerResolutionMs))
  have executed : f.start < 2 ^ 63 := by omega
  refine ⟨rfl, fun none_ => absurd none_ (Nat.succ_ne_zero _), fun _ =>
    ⟨(Nat.zero_lt_of_lt soon).trans_le due, executed, next, error, ahead, ?_⟩⟩
  show (s.fire f).nominalNs < tickNs f.added (s.fire f).task.nextFireDurationMs + 3000000
  rcases branch with ⟨long, -⟩ | ⟨-, exact_⟩ | ⟨behind, -⟩
  · rcases Nat.eq_zero_or_pos s.firings with none_ | some_
    · rw [if_pos none_] at nominal
      omega
    · -- The execution took a period, and both ticks are at multiples of 2 ms.
      have apart : tickNs s.addedNs s.task.nextFireDurationMs + 1000000 * s.task.intervalMs <
          tickNs f.added (s.fire f).task.nextFireDurationMs + 500000 := by omega
      have gap := tickNs_gap apart
      have before := (inv.late some_).tick
      rw [if_neg some_.ne'] at nominal
      omega
  · omega
  · unfold timerResolutionMs at behind
    omega

theorem step_eq_some {task : Task κ} {addedNs : Nat} {s' : Periodic κ}
    (step : (machine task addedNs).step s f = some s') : s.Fires f ∧ s.fire f = s' := by
  simp only [machine] at step
  split at step
  · cases step
  · obtain ⟨fires, ⟨⟩⟩ := Option.ite_none_right_eq_some.mp step
    exact ⟨fires, rfl⟩

theorem step_inv {task : Task κ} {addedNs : Nat} {s' : Periodic κ} (interval : task.intervalMs < timerMaxIntervalMs)
    (inv : s.Inv task.intervalMs) (step : (machine task addedNs).step s f = some s') : s'.Inv task.intervalMs := by
  obtain ⟨fires, rfl⟩ := step_eq_some step
  have same := inv.interval
  rw [← same] at inv interval ⊢
  exact inv.fire interval fires

theorem inv_of_reach {timerId addedNs : Nat} {opt : TimerOption κ} {task : Task κ}
    (accepted : initTimerTask timerId opt = some task) (reach : (machine task addedNs).Reach s) :
    s.Inv task.intervalMs := by
  obtain ⟨positive, small, interval, next, error, last⟩ := initTimerTask_eq_some accepted
  refine reach.invariant ⟨rfl, fun _ => ⟨error, last, next.ge.trans' positive⟩, fun some_ => ?_⟩
    fun _ _ _ inv step => step_inv (interval.trans_lt small) inv step
  exact absurd some_ (Nat.lt_irrefl 0)

/-- In every run of a periodic timer the duration it asks for is at least the resolution and at most 3 ms above the
period, the error stays above -3 ms, and no firing begins 3 ms before its nominal time. -/
theorem never_ahead {timerId addedNs : Nat} {opt : TimerOption κ} {task : Task κ}
    (accepted : initTimerTask timerId opt = some task) (reach : (machine task addedNs).Reach s)
    (fired : 0 < s.firings) :
    (timerResolutionMs ≤ s.task.nextFireDurationMs ∧ s.task.nextFireDurationMs ≤ opt.period + 3) ∧
      -3000000 < s.task.accumulatedErrorNs ∧
      s.firstNs + (s.firings - 1) * (opt.period * 1000000) < s.task.lastExecuteTimeNs + 3000000 := by
  have inv := inv_of_reach accepted reach
  have late := inv.late fired
  have same : s.task.intervalMs = opt.period := inv.interval.trans (initTimerTask_eq_some accepted).2.2.1
  have next := late.next
  have error := late.error
  have ahead := late.ahead
  rw [same] at next error
  refine ⟨next, ahead, ?_⟩
  have nominal : s.nominalNs = s.firstNs + (s.firings - 1) * (opt.period * 1000000) + opt.period * 1000000 := by
    obtain ⟨n, count⟩ : ∃ n, s.firings = n + 1 := ⟨s.firings - 1, by omega⟩
    rw [nominalNs, same, count, Nat.succ_mul, Nat.add_sub_cancel, Nat.add_assoc]
  omega

/-- A period of 10 ms, a first callback that is 1 ms late, and a second one that takes 12 ms. -/
def tenMs : List Firing :=
  [⟨11000000, 11000000, 11000000⟩, ⟨20000000, 32000000, 32000000⟩]

theorem tenMs_never_ahead :
    let s := (machine ⟨0, .periodic (), 10, 10, 0, 0⟩ 0).stateAt tenMs 2
    s.firings = 2 ∧ s.task.nextFireDurationMs ≤ 10 + 3 := by
  have reach := Machine.stateAt_reach (M := machine ⟨0, .periodic (), 10, 10, 0, 0⟩ 0) tenMs (by decide +kernel)
  have accepted : initTimerTask 0 ⟨10, (), false⟩ = some ⟨0, .periodic (), 10, 10, 0, 0⟩ := rfl
  exact ⟨by decide +kernel, (never_ahead accepted reach (by decide +kernel)).1.2⟩

end Periodic

end CyberRT.Timer

import CyberRT.Timer.PeriodicTimer
import CyberRT.Timer.TimingWheelExact

namespace CyberRT.TimingWheel
open Concur
universe u
variable {ι : Type u} [DecidableEq ι] {tasks : ι → TimerTask} {k k' : Clock ι} {x : ι}

/-- Until the task is added again, its callback is posted at tick `due` and at no other. -/
def Dispatched (tasks : ι → TimerTask) (k : Clock ι) (x : ι) (due : Nat) : Prop :=
  ∀ es k', (Exact.machine tasks).exec k es = some k' → (∀ nextFireDurationMs, .addTask x nextFireDurationMs ∉ es) →
    (k'.fired x = [] ∨ k'.fired x = [due]) ∧
      ((k'.wheel.tasks x).alive → due < k'.wheel.tickCount → k'.fired x = [due])

namespace Exact

theorem step_due {due : Nat} {e : Event ι} (inv : Inv k) (onTime : k.Due x due)
    (other : ∀ nextFireDurationMs, e ≠ .addTask x nextFireDurationMs)
    (step : (machine tasks).step k e = some k') : k'.Due x due := by
  cases e with
  | addTask y nextFireDurationMs =>
    obtain ⟨-, ⟨⟩⟩ := Option.ite_none_right_eq_some.mp step
    have different : x ≠ y := by
      rintro rfl
      exact other _ rfl
    exact onTime.keeps (addTask_keeps k nextFireDurationMs different)
  | tick =>
    obtain ⟨ready, ⟨⟩⟩ := Option.ite_none_right_eq_some.mp step
    exact onTime.tick inv.synced ready.2
  | advance =>
    obtain ⟨here, ⟨⟩⟩ := Option.ite_none_right_eq_some.mp step
    have advanced := onTime.keeps (k.keeps_advanceWork x)
    have synced := inv.synced.advanceWork here
    unfold Clock.advance
    simp only
    split
    · rename_i wraps
      have assistant := advanced.keeps (k.advanceWork.keeps_advanceAssistant x)
      exact assistant.cascade (synced.advanceAssistant wraps) rfl
    · exact advanced
  | expire y =>
    cases step
    exact onTime.expire y
  | shutdown =>
    cases step
    exact onTime.keeps ⟨rfl, rfl, rfl, rfl, rfl, fun _ => id⟩

theorem exec_due {due : Nat} {es : List (Event ι)} (inv : Inv k) (onTime : k.Due x due)
    (other : ∀ nextFireDurationMs, .addTask x nextFireDurationMs ∉ es)
    (run : (machine tasks).exec k es = some k') : Inv k' ∧ k'.Due x due := by
  induction es generalizing k with
  | nil =>
    cases run
    exact ⟨inv, onTime⟩
  | cons e es ih =>
    obtain ⟨mid, step, rest⟩ := Option.bind_eq_some_iff.mp run
    refine ih (step_inv tasks inv step) (step_due inv onTime ?_ step) ?_ rest
    · rintro d rfl
      exact other d (List.mem_cons_self ..)
    · exact fun d there => other d (List.mem_cons_of_mem _ there)

theorem dispatched_of_due {due : Nat} (inv : Inv k) (onTime : k.Due x due) : Dispatched tasks k x due := by
  intro es k' run other
  obtain ⟨inv', onTime'⟩ := exec_due inv onTime other run
  rcases onTime' with ⟨fired, -⟩ | ⟨waits, inTime⟩
  · exact ⟨.inr fired, fun _ _ => fired⟩
  · refine ⟨.inl waits, fun alive past => ?_⟩
    exact absurd ((inTime alive).after inv'.synced) (Nat.not_le_of_lt past)

theorem step_addTask (adds : k.Adds x) (ready : k.wheel.running ∨ k.pc = .tick) (nextFireDurationMs : Nat) :
    (machine tasks).step k (.addTask x nextFireDurationMs) = some (k.addTask x nextFireDurationMs) :=
  if_pos ⟨adds, ready⟩

/-- The call starts the wheel, and the task stays as alive as it was. -/
theorem addTask_started (k : Clock ι) (x : ι) (nextFireDurationMs : Nat) :
    (k.addTask x nextFireDurationMs).wheel.running = true ∧
      ((k.addTask x nextFireDurationMs).wheel.tasks x).alive = (k.wheel.tasks x).alive := by
  obtain ⟨place, task, next, alive, -⟩ := addTask_eq k x nextFireDurationMs
  rw [next]
  exact ⟨rfl, by simpa [setTask, insert] using alive⟩

/-- The thread takes the wheel from one state to another, `n` ticks later; nobody else does anything. -/
structure Ticks (tasks : ι → TimerTask) (n : Nat) (k k' : Clock ι) : Prop where
  run : ∃ es, (machine tasks).exec k es = some k' ∧ ∀ x nextFireDurationMs, .addTask x nextFireDurationMs ∉ es
  inv : Inv k'
  running : k'.wheel.running = true
  tickCount : k'.wheel.tickCount = k.wheel.tickCount + n
  tasks : k'.wheel.tasks = k.wheel.tasks
  calls : k'.calls = k.calls

theorem Ticks.trans {n m : Nat} {k₁ k₂ k₃ : Clock ι} (first : Ticks tasks n k₁ k₂) (second : Ticks tasks m k₂ k₃) :
    Ticks tasks (n + m) k₁ k₃ := by
  obtain ⟨es, run, quiet⟩ := first.run
  obtain ⟨fs, run', quiet'⟩ := second.run
  refine ⟨⟨es ++ fs, ?_, fun x d there => ?_⟩, second.inv, second.running, ?_, second.tasks.trans first.tasks,
    second.calls.trans first.calls⟩
  · rw [Machine.exec_append, run, Option.bind_some, run']
  · rcases List.mem_append.mp there with here | here
    · exact quiet x d here
    · exact quiet' x d here
  · rw [second.tickCount, first.tickCount, Nat.add_assoc]

omit [DecidableEq ι] in
theorem advance_pc (k : Clock ι) : k.advance.pc = .tick := by
  unfold Clock.advance
  simp only
  split
  · rfl
  · rename_i stays
    unfold Clock.advanceWork at stays ⊢
    simp only at stays ⊢
    split at stays
    · exact absurd rfl stays
    · rename_i nonzero
      rw [if_neg nonzero]

theorem ticks_advance (inv : Inv k) (running : k.wheel.running = true) (here : k.pc = .advanceWork) :
    Ticks tasks 0 k k.advance := by
  have same : k.advance.wheel.running = k.wheel.running ∧ k.advance.wheel.tickCount = k.wheel.tickCount ∧
      k.advance.wheel.tasks = k.wheel.tasks ∧ k.advance.calls = k.calls := by
    unfold Clock.advance
    simp only
    split
    · rw [Clock.cascade, cascade_eq]
      exact ⟨rfl, rfl, rfl, rfl⟩
    · exact ⟨rfl, rfl, rfl, rfl⟩
  refine ⟨⟨[.advance], ?_, by simp⟩, inv.advance here, same.1.trans running, same.2.1, same.2.2.1, same.2.2.2⟩
  exact congrArg (Option.bind · some) (if_pos here)

theorem ticks_tick (inv : Inv k) (running : k.wheel.running = true) (here : k.pc = .tick) :
    Ticks tasks 1 k k.tick := by
  refine ⟨⟨[.tick], ?_, by simp⟩, inv.tick here, running, rfl, rfl, rfl⟩
  exact congrArg (Option.bind · some) (if_pos ⟨running, here⟩)

/-- The wheel gets to every later tick, and then waits for the advance. -/
theorem exists_ticks (tasks : ι → TimerTask) (inv : Inv k) (running : k.wheel.running = true) (n : Nat) :
    ∃ k', Ticks tasks (n + 1) k k' ∧ k'.pc = .advanceWork := by
  have one : ∀ k : Clock ι, Inv k → k.wheel.running = true → ∃ k', Ticks tasks 1 k k' ∧ k'.pc = .advanceWork := by
    intro k inv running
    rcases inv.between with here | here
    · exact ⟨k.tick, ticks_tick inv running here, rfl⟩
    · have advanced : Ticks tasks 0 k k.advance := ticks_advance inv running here
      have ticked : Ticks tasks 1 k.advance k.advance.tick :=
        ticks_tick advanced.inv advanced.running (advance_pc k)
      exact ⟨k.advance.tick, (Nat.zero_add 1) ▸ advanced.trans ticked, rfl⟩
  induction n with
  | zero => exact one k inv running
  | succ n ih =>
    obtain ⟨mid, before, -⟩ := ih
    obtain ⟨k', after, here⟩ := one mid before.inv before.running
    exact ⟨k', before.trans after, here⟩

/-- A duration that passes the end of the assistant wheel comes round to a bucket that is cascaded too early. -/
theorem exists_early (inv : Inv k) (adds : k.Adds x) {nextFireDurationMs : Nat}
    (past : assistantWheelSize < (k.wheel.currentWorkWheelIndex + ticks nextFireDurationMs) / workWheelSize) :
    ∃ due, due < k.advances + ticks nextFireDurationMs ∧ (k.addTask x nextFireDurationMs).Due x due := by
  have absent := (inv.once x).absent adds
  obtain ⟨place, task, next, -, chosen⟩ := addTask_eq k x nextFireDurationMs
  obtain ⟨work, assistant, -⟩ := inv.synced
  obtain ⟨-, -, cascaded, advanced⟩ := inv.kept_up
  rw [advanced] at assistant
  rw [work] at past chosen
  obtain ⟨N, atN⟩ : ∃ N, k.advances = N := ⟨_, rfl⟩
  obtain ⟨D, atD⟩ : ∃ D, ticks nextFireDurationMs = D := ⟨_, rfl⟩
  rw [atN] at work assistant cascaded past chosen ⊢
  rw [atD] at past chosen ⊢
  rw [assistant] at chosen
  -- how many revolutions of the assistant wheel are lost
  obtain ⟨m, atM⟩ : ∃ m, m = ((N % workWheelSize + D) / workWheelSize - 1) / assistantWheelSize := ⟨_, rfl⟩
  refine ⟨N + D - workWheelSize * assistantWheelSize * m, ?_, ?_⟩
  · unfold workWheelSize assistantWheelSize at *
    omega
  · rcases chosen with ⟨near, -⟩ | ⟨one, -, -⟩ | ⟨-, remainder, rfl⟩
    · unfold workWheelSize assistantWheelSize at *
      omega
    · unfold workWheelSize assistantWheelSize at *
      omega
    · have bucket : (N / workWheelSize % assistantWheelSize + (N % workWheelSize + D) / workWheelSize) %
          assistantWheelSize = (N + D - workWheelSize * assistantWheelSize * m) / workWheelSize %
            assistantWheelSize := by
        unfold workWheelSize assistantWheelSize at *
        omega
      have slot : (N % workWheelSize + D) % workWheelSize =
          (N + D - workWheelSize * assistantWheelSize * m) % workWheelSize := by
        unfold workWheelSize assistantWheelSize at *
        omega
      rw [next, bucket]
      refine Clock.due_insertAssistant (k := { k with
          wheel := ({ k.wheel with running := true } : TimingWheel ι).setTask x task
          calls := _
          fired := Function.update k.fired x [] }) absent (Function.update_self ..) ?_ ?_ ?_
      · rw [← slot]
        simpa [setTask] using remainder
      · show k.cascades < _
        unfold workWheelSize assistantWheelSize at *
        omega
      · show _ ≤ k.cascades + _
        unfold workWheelSize assistantWheelSize at *
        omega

/-- A task is dispatched at the tick it is due at exactly if its duration does not pass the end of the assistant
wheel. -/
theorem dispatched_iff (inv : Inv k) (adds : k.Adds x) {nextFireDurationMs : Nat}
    (positive : 1 ≤ ticks nextFireDurationMs) :
    Dispatched tasks (k.addTask x nextFireDurationMs) x (k.advances + ticks nextFireDurationMs) ↔
      (k.wheel.currentWorkWheelIndex + ticks nextFireDurationMs) / workWheelSize ≤ assistantWheelSize := by
  have inv' := inv.addTask adds nextFireDurationMs
  constructor
  · intro dispatched
    by_contra past
    obtain ⟨due, early, onTime⟩ := exists_early inv adds (Nat.lt_of_not_le past)
    have started := addTask_started k x nextFireDurationMs
    obtain ⟨k', later, -⟩ := exists_ticks tasks inv' started.1 (k.advances + ticks nextFireDurationMs)
    obtain ⟨es, run, quiet⟩ := later.run
    have alive : (k'.wheel.tasks x).alive = true := by rw [later.tasks, started.2, adds.2]
    have count := later.tickCount
    have atDue := ((dispatched_of_due inv' onTime) es k' run (quiet x)).2 alive (by omega)
    have atOther := (dispatched es k' run (quiet x)).2 alive (by omega)
    rw [atDue] at atOther
    exact absurd (List.cons.inj atOther).1 (Nat.ne_of_lt early)
  · intro most
    exact dispatched_of_due inv' (inv.due_addTask adds positive most)

end Exact

end CyberRT.TimingWheel

namespace CyberRT.Timer
open Concur TimingWheel
universe u v
variable {κ : Type u} {ι : Type v} [DecidableEq ι] {s : Periodic κ} {f : Firing}

namespace Periodic

/-- By how much a run of the callback is behind its nominal time. -/
def behindNs (s : Periodic κ) (start : Nat) : Int :=
  if s.firings = 0 then 0 else start - s.nominalNs

/-- The duration that the callback asks for is in reach from the last index of the work wheel, or the work wheel is
not there. -/
def InReach (s : Periodic κ) (f : Firing) (workWheelIndex : Nat) : Prop :=
  s.task.intervalMs ≤ timerMaxIntervalMs + llroundMs (f.end_ - f.start) + llroundMs (s.behindNs f.start) ∨
    workWheelIndex < workWheelSize - 1

instance (s : Periodic κ) (f : Firing) (workWheelIndex : Nat) : Decidable (s.InReach f workWheelIndex) :=
  inferInstanceAs (Decidable (_ ∨ _))

/-- The duration is in reach of the assistant wheel: the period alone always is, and what the error adds to it only
matters in the last slot of the work wheel. -/
theorem Inv.inReach_iff (inv : s.Inv s.task.intervalMs) (interval : s.task.intervalMs < timerMaxIntervalMs)
    (fires : s.Fires f) {workWheelIndex : Nat} (index : workWheelIndex < workWheelSize) :
    (workWheelIndex + ticks (s.fire f).task.nextFireDurationMs) / workWheelSize ≤ assistantWheelSize ↔
      s.InReach f workWheelIndex := by
  obtain ⟨error, ahead, bound⟩ := inv.fire_error fires
  have behind : (s.fire f).task.accumulatedErrorNs = s.behindNs f.start := by
    rw [error, fire_nominalNs, behindNs]
    split <;> omega
  have next := (inv.fire interval fires).late (Nat.succ_pos _) |>.next
  obtain ⟨-, ordered, added, fits⟩ := fires
  have executeMs := llroundMs_bounds (f.end_ - f.start)
  have errorMs := llroundMs_bounds (s.behindNs f.start)
  have branch :=
    Task.fire_next (rfl : (s.fire f).task = s.task.fire f.start f.end_) ordered (by omega) interval ahead bound
  have same : (s.fire f).task.intervalMs = s.task.intervalMs := rfl
  rw [behind] at ahead branch
  rw [same] at next
  unfold InReach
  unfold timerMaxIntervalMs workWheelSize assistantWheelSize ticks timerResolutionMs at *
  omega

end Periodic

/-- In every run of a periodic timer and from every state of the wheel, the task that is armed again is dispatched
exactly as many advances later as its duration has ticks if and only if the period does not exceed the range of the
wheel by more than the callback took and is behind, or the work wheel is not in its last slot. -/
theorem rearmed_on_time_iff {timerId addedNs : Nat} {opt : TimerOption κ} {task : Task κ}
    (accepted : initTimerTask timerId opt = some task) {s' : Periodic κ}
    (reach : (Periodic.machine task addedNs).Reach s) (fired : (Periodic.machine task addedNs).step s f = some s')
    {tasks : ι → TimerTask} {k k' : Clock ι} {x : ι} (wheel : (Exact.machine tasks).Reach k)
    (rearm : (Exact.machine tasks).step k (.addTask x s'.task.nextFireDurationMs) = some k') :
    Dispatched tasks k' x (k.advances + ticks s'.task.nextFireDurationMs) ↔
      s.InReach f k.wheel.currentWorkWheelIndex := by
  obtain ⟨ready, ⟨⟩⟩ := Option.ite_none_right_eq_some.mp rearm
  obtain ⟨fires, rfl⟩ := Periodic.step_eq_some fired
  have inv := Exact.inv_of_reach wheel
  have interval := (initTimerTask_eq_some accepted).2.2.1.trans_lt (initTimerTask_eq_some accepted).2.1
  have timer := Periodic.inv_of_reach accepted reach
  have index : k.wheel.currentWorkWheelIndex < workWheelSize :=
    inv.synced.1.trans_lt (Nat.mod_lt _ (by decide))
  have same := timer.interval
  rw [← same] at timer interval
  have next := (timer.fire interval fires).positive
  have positive : 1 ≤ ticks (s.fire f).task.nextFireDurationMs := by
    unfold ticks timerResolutionMs
    omega
  rw [Exact.dispatched_iff inv ready.1 positive, timer.inReach_iff interval fires index]

theorem tenMs_on_time :
    Dispatched (fun _ => ⟨0, 0, true⟩) ((Clock.new fun _ => ⟨0, 0, true⟩).addTask () 10) () 5 := by
  let task : Task Unit := ⟨0, .periodic (), 10, 10, 0, 0⟩
  have accepted : initTimerTask 0 ⟨10, (), false⟩ = some task := rfl
  have fired : (Periodic.machine task 0).step (Periodic.machine task 0).init ⟨10000000, 10000000, 10000000⟩ =
      some ⟨⟨0, .periodic (), 10, 10, 0, 10000000⟩, 10000000, 1, 10000000⟩ := by decide +kernel
  have adds : (Clock.new fun _ : Unit => ⟨0, 0, true⟩).Adds () := ⟨.inl rfl, rfl⟩
  exact (rearmed_on_time_iff accepted .start fired .start (Exact.step_addTask adds (.inr rfl) 10)).mpr
    (.inl (by decide +kernel))

/-- The largest period; the first callback begins 1.5 ms after its tick and runs for half a millisecond. -/
def limitTask : Task Unit :=
  ⟨0, .periodic (), 65535, 65535, 0, 0⟩

def limitFiring : Firing :=
  ⟨65537499999, 65537999999, 65537999999⟩

/-- Its second run comes 2.5 ms before its nominal time and asks for 65537 ms. The wheel has its 512th tick, and the
bucket that the task gets is cascaded at the next advance. -/
theorem limit_dispatched_early :
    initTimerTask 0 ⟨65535, (), false⟩ = some limitTask ∧
      ¬ ∀ (s s' : Periodic Unit) (f : Firing) (k k' : Clock Bool), (Periodic.machine limitTask 0).Reach s →
        (Periodic.machine limitTask 0).step s f = some s' → (Exact.machine fun _ => ⟨0, 0, true⟩).Reach k →
          (Exact.machine fun _ => ⟨0, 0, true⟩).step k (.addTask true s'.task.nextFireDurationMs) = some k' →
            Dispatched (fun _ => ⟨0, 0, true⟩) k' true (k.advances + ticks s'.task.nextFireDurationMs) := by
  refine ⟨rfl, fun always => ?_⟩
  let tasks : Bool → TimerTask := fun _ => ⟨0, 0, true⟩
  have reach := Machine.stateAt_reach (M := Periodic.machine limitTask 0) [limitFiring] (by decide +kernel)
  have fired : (Periodic.machine limitTask 0).step ((Periodic.machine limitTask 0).stateAt [limitFiring] 1)
      ⟨131070000000, 131070000000, 131070000000⟩ =
        some ⟨⟨0, .periodic (), 65535, 65537, -2499999, 131070000000⟩, 131070000000, 2, 65537499999⟩ := by
    decide +kernel
  -- The other task starts the wheel.
  have started : (Exact.machine tasks).Reach ((Clock.new tasks).addTask false 2) :=
    .next .start trivial (Exact.step_addTask (x := false) ⟨.inl rfl, rfl⟩ (.inr rfl) 2)
  have running := (Exact.addTask_started (Clock.new tasks) false 2).1
  obtain ⟨k, later, atAdvance⟩ := Exact.exists_ticks tasks (Exact.inv_of_reach started) running 511
  obtain ⟨es, run, -⟩ := later.run
  have wheel : (Exact.machine tasks).Reach k := Machine.exec_reachWhen started (Machine.meets_true _ _) run
  obtain ⟨index, -, phase⟩ := later.inv.synced
  rw [atAdvance] at phase
  have keeps := Exact.addTask_keeps (Clock.new tasks) 2 (show true ≠ false by decide)
  have count : k.wheel.tickCount = 512 := by rw [later.tickCount, keeps.tickCount, Clock.new, TimingWheel.new]
  have adds : k.Adds true := by
    refine ⟨.inl ?_, ?_⟩
    · rw [later.calls, keeps.calls, Clock.new]
    · rw [later.tasks, keeps.task, Clock.new, TimingWheel.new]
  have dispatched := always _ _ _ k _ reach fired wheel (Exact.step_addTask adds (.inl later.running) _)
  have near := (Exact.dispatched_iff later.inv adds (by decide)).mp dispatched
  have slot : k.wheel.currentWorkWheelIndex = 511 := by
    have advances : k.advances = 511 := by omega
    rw [index, advances]
    rfl
  rw [slot] at near
  exact absurd near (by decide)

end CyberRT.Timer

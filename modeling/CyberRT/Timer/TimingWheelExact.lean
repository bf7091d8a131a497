import CyberRT.Timer.WheelClock

namespace CyberRT.TimingWheel
open Concur
universe u
variable {ι : Type u}

namespace Clock

/-- The advance of the work index with the cascade at its wrap. -/
def advance (k : Clock ι) : Clock ι :=
  let k := k.advanceWork
  if k.pc = .advanceAssistant then k.advanceAssistant.cascade else k

variable [DecidableEq ι]

/-- A timer adds a task that it has not added before, or whose callback has been posted since, and keeps it alive
during the call. -/
def Adds (k : Clock ι) (x : ι) : Prop :=
  (k.calls x = none ∨ k.fired x ≠ []) ∧ (k.wheel.tasks x).alive

instance (k : Clock ι) (x : ι) : Decidable (k.Adds x) :=
  have : Decidable (k.calls x = none) := decidable_of_iff ((k.calls x).isNone) Option.isNone_iff_eq_none
  inferInstanceAs (Decidable (_ ∧ _))

theorem Once.absent {k : Clock ι} {x : ι} (once : k.Once x) (adds : k.Adds x) : k.wheel.Where x none := by
  obtain ⟨place, placed, waits⟩ := once
  by_cases nowhere : place = none
  · exact nowhere ▸ placed
  · obtain ⟨unfired, called⟩ := waits nowhere
    rcases adds.1 with never | fired
    · exact absurd never called
    · exact absurd unfired fired

/-- `AddTask` in one step. -/
def addTask (k : Clock ι) (x : ι) (nextFireDurationMs : Nat) : Clock ι :=
  let wheel := k.wheel.setTask x { k.wheel.tasks x with nextFireDurationMs := nextFireDurationMs }
  { k with
    wheel := wheel.addTask x wheel.currentWorkWheelIndex
    calls := Function.update k.calls x
      (some ⟨k.wheel.tickCount, k.advances, nextFireDurationMs, some k.wheel.tickCount⟩)
    fired := Function.update k.fired x [] }

end Clock

namespace Exact

inductive Event (ι : Type u)
  | addTask (x : ι) (nextFireDurationMs : Nat)
  | tick
  | advance
  | expire (x : ι)
  | shutdown

variable [DecidableEq ι]

/-- `AddTask`, `Tick` and the advance are one step each. `Start` waits until the thread of a wheel that was shut
down has left its loop. -/
def machine (tasks : ι → TimerTask) : Machine (Clock ι) (Event ι) where
  init := .new tasks
  step k
    | .addTask x nextFireDurationMs =>
      if k.Adds x ∧ (k.wheel.running ∨ k.pc = .tick) then some (k.addTask x nextFireDurationMs) else none
    | .tick => if k.wheel.running ∧ k.pc = .tick then some k.tick else none
    | .advance => if k.pc = .advanceWork then some k.advance else none
    | .expire x => some (k.expire x)
    | .shutdown => some { k with wheel := { k.wheel with running := false } }

structure Inv (k : Clock ι) : Prop where
  synced : k.Synced
  between : k.pc = .tick ∨ k.pc = .advanceWork
  once : ∀ x, k.Once x
  due : ∀ x call, k.calls x = some call → call.Accepted → k.Due x call.due

end Exact

/-- The buckets that `AddTask` can choose for a task that is in none. -/
theorem addTask_place [DecidableEq ι] (w : TimingWheel ι) (x : ι) (index : Nat) :
    ∃ place task, w.addTask x index = (({ w with running := true } : TimingWheel ι).setTask x task).insert place x ∧
      task.alive = (w.tasks x).alive ∧
      ((index + ticks (w.tasks x).nextFireDurationMs < workWheelSize ∧
          place = .work (index + ticks (w.tasks x).nextFireDurationMs)) ∨
        ((index + ticks (w.tasks x).nextFireDurationMs) / workWheelSize = 1 ∧
          (index + ticks (w.tasks x).nextFireDurationMs) % workWheelSize < w.currentWorkWheelIndex ∧
          place = .work ((index + ticks (w.tasks x).nextFireDurationMs) % workWheelSize)) ∨
        (1 ≤ (index + ticks (w.tasks x).nextFireDurationMs) / workWheelSize ∧
          task.remainderIntervalMs = (index + ticks (w.tasks x).nextFireDurationMs) % workWheelSize ∧
          place = .assistant ((w.currentAssistantWheelIndex +
            (index + ticks (w.tasks x).nextFireDurationMs) / workWheelSize) % assistantWheelSize))) := by
  unfold TimingWheel.addTask
  simp only [getWorkWheelIndex_eq, getAssistantWheelIndex_eq]
  split
  · rename_i far
    split
    · rename_i behind
      exact ⟨_, _, rfl, rfl, .inr (.inl ⟨behind.1, behind.2, rfl⟩)⟩
    · exact ⟨_, _, rfl, rfl, .inr (.inr ⟨(Nat.one_le_div_iff (by decide)).mpr far, rfl, rfl⟩)⟩
  · rename_i near
    refine ⟨.work (index + ticks (w.tasks x).nextFireDurationMs), w.tasks x, ?_, rfl, .inl ⟨by omega, rfl⟩⟩
    simp [setTask]

/-- A task for which the index was read after `N` advances, by when the cascades had kept up, is in time wherever
it is put. -/
theorem Clock.due_place [DecidableEq ι] {k : Clock ι} {x : ι} {place : Place} {N duration : Nat}
    (absent : k.wheel.Where x none) (waits : k.fired x = []) (lower : N ≤ k.wheel.tickCount)
    (upper : k.wheel.tickCount ≤ N + 1) (cascaded : k.cascades = N / workWheelSize) (positive : 1 ≤ duration)
    (most : (N % workWheelSize + duration) / workWheelSize ≤ assistantWheelSize)
    (chosen : (N % workWheelSize + duration < workWheelSize ∧ place = .work (N % workWheelSize + duration)) ∨
      ((N % workWheelSize + duration) / workWheelSize = 1 ∧
        (N % workWheelSize + duration) % workWheelSize < N % workWheelSize ∧
        place = .work ((N % workWheelSize + duration) % workWheelSize)) ∨
      (1 ≤ (N % workWheelSize + duration) / workWheelSize ∧
        (k.wheel.tasks x).remainderIntervalMs = (N % workWheelSize + duration) % workWheelSize ∧
        place = .assistant ((N / workWheelSize % assistantWheelSize +
          (N % workWheelSize + duration) / workWheelSize) % assistantWheelSize))) :
    Due { k with wheel := k.wheel.insert place x } x (N + duration) := by
  have revolution : (N + duration) / workWheelSize =
      N / workWheelSize + (N % workWheelSize + duration) / workWheelSize := by
    unfold workWheelSize
    omega
  have slot : (N + duration) % workWheelSize = (N % workWheelSize + duration) % workWheelSize :=
    (Nat.mod_add_mod _ _ _).symm
  rcases chosen with ⟨near, rfl⟩ | ⟨one, behind, rfl⟩ | ⟨far, remainder, rfl⟩
  · rw [← Nat.mod_eq_of_lt near, ← slot]
    refine due_insertWork absent waits (by omega) ?_
    unfold workWheelSize at *
    omega
  · rw [← slot]
    refine due_insertWork absent waits (by omega) ?_
    unfold workWheelSize at *
    omega
  · rw [Nat.mod_add_mod, ← revolution]
    exact due_insertAssistant absent waits (remainder.trans slot.symm) (by omega) (by omega)

namespace Exact
variable [DecidableEq ι] {k : Clock ι}

/-- Between the steps the cascades have kept up with the advances. -/
theorem Inv.kept_up (inv : Inv k) :
    k.advances ≤ k.wheel.tickCount ∧ k.wheel.tickCount ≤ k.advances + 1 ∧
      k.cascades = k.advances / workWheelSize ∧ k.assistantAdvances = k.advances / workWheelSize := by
  obtain ⟨-, -, phase⟩ := inv.synced
  rcases inv.between with here | here
  · rw [here] at phase
    exact ⟨phase.1.ge, phase.1.le.trans (Nat.le_succ _), phase.2.2, phase.2.1⟩
  · rw [here] at phase
    exact ⟨phase.1.ge.trans' (Nat.le_succ _), phase.1.le, phase.2.2, phase.2.1⟩

/-- A call of `AddTask` puts the task into one of the buckets that it can choose. -/
theorem addTask_eq (k : Clock ι) (x : ι) (nextFireDurationMs : Nat) :
    ∃ place task, k.addTask x nextFireDurationMs =
      { k with
        wheel := (({ k.wheel with running := true } : TimingWheel ι).setTask x task).insert place x
        calls := Function.update k.calls x
          (some ⟨k.wheel.tickCount, k.advances, nextFireDurationMs, some k.wheel.tickCount⟩)
        fired := Function.update k.fired x [] } ∧ task.alive = (k.wheel.tasks x).alive ∧
      ((k.wheel.currentWorkWheelIndex + ticks nextFireDurationMs < workWheelSize ∧
          place = .work (k.wheel.currentWorkWheelIndex + ticks nextFireDurationMs)) ∨
        ((k.wheel.currentWorkWheelIndex + ticks nextFireDurationMs) / workWheelSize = 1 ∧
          (k.wheel.currentWorkWheelIndex + ticks nextFireDurationMs) % workWheelSize < k.wheel.currentWorkWheelIndex ∧
          place = .work ((k.wheel.currentWorkWheelIndex + ticks nextFireDurationMs) % workWheelSize)) ∨
        (1 ≤ (k.wheel.currentWorkWheelIndex + ticks nextFireDurationMs) / workWheelSize ∧
          task.remainderIntervalMs = (k.wheel.currentWorkWheelIndex + ticks nextFireDurationMs) % workWheelSize ∧
          place = .assistant ((k.wheel.currentAssistantWheelIndex +
            (k.wheel.currentWorkWheelIndex + ticks nextFireDurationMs) / workWheelSize) % assistantWheelSize))) := by
  obtain ⟨place, task, added, alive, chosen⟩ := addTask_place
    (k.wheel.setTask x { k.wheel.tasks x with nextFireDurationMs := nextFireDurationMs }) x
    k.wheel.currentWorkWheelIndex
  have duration : ticks ((k.wheel.setTask x
      { k.wheel.tasks x with nextFireDurationMs := nextFireDurationMs }).tasks x).nextFireDurationMs =
        ticks nextFireDurationMs := by simp [setTask]
  rw [duration] at chosen
  refine ⟨place, task, ?_, alive.trans (by simp [setTask]), chosen⟩
  unfold Clock.addTask
  simp only
  congr 1
  refine added.trans ?_
  simp [setTask]

theorem addTask_keeps (k : Clock ι) {x y : ι} (nextFireDurationMs : Nat) (different : y ≠ x) :
    k.Keeps (k.addTask x nextFireDurationMs) y := by
  obtain ⟨place, task, next, -, -⟩ := addTask_eq k x nextFireDurationMs
  rw [next]
  refine ⟨rfl, rfl, by simp [different], by simp [different], by simp [setTask, insert, different], ?_⟩
  exact fun p placed => Where.insert_other placed place (Ne.symm different)

/-- A task is in time if its duration does not pass the end of the assistant wheel. -/
theorem Inv.due_addTask (inv : Inv k) {x : ι} (adds : k.Adds x) {nextFireDurationMs : Nat}
    (positive : 1 ≤ ticks nextFireDurationMs)
    (most : (k.wheel.currentWorkWheelIndex + ticks nextFireDurationMs) / workWheelSize ≤ assistantWheelSize) :
    (k.addTask x nextFireDurationMs).Due x (k.advances + ticks nextFireDurationMs) := by
  have absent := (inv.once x).absent adds
  obtain ⟨place, task, next, -, chosen⟩ := addTask_eq k x nextFireDurationMs
  obtain ⟨work, assistant, -⟩ := inv.synced
  obtain ⟨lower, upper, cascaded, advanced⟩ := inv.kept_up
  rw [advanced] at assistant
  rw [next]
  rw [work] at most chosen
  refine Clock.due_place (k := { k with
      wheel := ({ k.wheel with running := true } : TimingWheel ι).setTask x task
      calls := _
      fired := Function.update k.fired x [] }) (N := k.advances) absent (Function.update_self ..) lower upper
    cascaded positive most ?_
  rcases chosen with near | ⟨one, behind, there⟩ | ⟨far, remainder, there⟩
  · exact .inl near
  · exact .inr (.inl ⟨one, behind, there⟩)
  · refine .inr (.inr ⟨far, ?_, ?_⟩)
    · simpa [setTask] using remainder
    · rw [there, ← assistant]

theorem Inv.addTask (inv : Inv k) {x : ι} (adds : k.Adds x) (nextFireDurationMs : Nat) :
    Inv (k.addTask x nextFireDurationMs) := by
  have absent := (inv.once x).absent adds
  obtain ⟨place, task, next, -, -⟩ := addTask_eq k x nextFireDurationMs
  refine ⟨?_, ?_, fun y => ?_, fun y call called accepted => ?_⟩
  · rw [next]
    exact inv.synced
  · rw [next]
    exact inv.between
  · by_cases same : y = x
    · subst same
      rw [next]
      exact ⟨some place, Where.insert absent place, fun _ => by simp⟩
    · exact (inv.once y).keeps (addTask_keeps k nextFireDurationMs same)
  · by_cases same : y = x
    · subst same
      have known : call = ⟨k.wheel.tickCount, k.advances, nextFireDurationMs, some k.wheel.tickCount⟩ := by
        rw [next] at called
        simpa using called.symm
      subst known
      obtain ⟨positive, bound⟩ := accepted.ticks
      refine inv.due_addTask adds positive ?_
      have slot := inv.synced.1
      unfold workWheelSize assistantWheelSize at *
      simp only at bound
      omega
    · have keeps := addTask_keeps k nextFireDurationMs same
      have before : k.calls y = some call := by
        rw [← keeps.calls]
        exact called
      exact (inv.due y call before accepted).keeps keeps

theorem Inv.tick (inv : Inv k) (here : k.pc = .tick) : Inv k.tick where
  synced := inv.synced.tick here
  between := .inr rfl
  once x := (inv.once x).tick
  due x call called accepted := (inv.due x call called accepted).tick inv.synced here

theorem Inv.advance (inv : Inv k) (here : k.pc = .advanceWork) : Inv k.advance := by
  have synced := inv.synced.advanceWork here
  have once := fun x => (inv.once x).keeps (k.keeps_advanceWork x)
  have due := fun x call called accepted => (inv.due x call called accepted).keeps (k.keeps_advanceWork x)
  unfold Clock.advance
  simp only
  split
  · rename_i wraps
    have assistant := synced.advanceAssistant wraps
    refine ⟨assistant.cascade rfl, .inl rfl, fun x => ?_, fun x call called accepted => ?_⟩
    · exact ((once x).keeps (k.advanceWork.keeps_advanceAssistant x)).cascade
    · exact ((due x call called accepted).keeps (k.advanceWork.keeps_advanceAssistant x)).cascade assistant rfl
  · rename_i stays
    refine ⟨synced, .inl ?_, once, due⟩
    unfold Clock.advanceWork at stays ⊢
    simp only at stays ⊢
    split at stays
    · exact absurd rfl stays
    · rename_i nonzero
      rw [if_neg nonzero]

theorem step_inv (tasks : ι → TimerTask) {k' : Clock ι} {e : Event ι} (inv : Inv k)
    (step : (machine tasks).step k e = some k') : Inv k' := by
  cases e with
  | addTask x nextFireDurationMs =>
    obtain ⟨adds, ⟨⟩⟩ := Option.ite_none_right_eq_some.mp step
    exact inv.addTask adds.1 nextFireDurationMs
  | tick =>
    obtain ⟨ready, ⟨⟩⟩ := Option.ite_none_right_eq_some.mp step
    exact inv.tick ready.2
  | advance =>
    obtain ⟨here, ⟨⟩⟩ := Option.ite_none_right_eq_some.mp step
    exact inv.advance here
  | expire x =>
    cases step
    exact ⟨inv.synced, inv.between, fun y => (inv.once y).expire x,
      fun y call called accepted => (inv.due y call called accepted).expire x⟩
  | shutdown =>
    cases step
    exact ⟨inv.synced, inv.between, inv.once, inv.due⟩

theorem inv_new (tasks : ι → TimerTask) : Inv (.new tasks : Clock ι) where
  synced := Clock.synced_new tasks
  between := .inl rfl
  once _ := ⟨none, fun _ => rfl, fun somewhere => absurd rfl somewhere⟩
  due _ _ called := by cases called

theorem inv_of_reach {tasks : ι → TimerTask} (reach : (machine tasks).Reach k) : Inv k :=
  reach.invariant (inv_new tasks) fun _ _ _ inv step => step_inv tasks inv step

/-- Since a task was added, its callback has been posted at most at the tick that follows exactly as many advances
as its duration has ticks, and at that tick if it is alive. Tick `n` follows `n` advances. -/
theorem posted_exactly_once {tasks : ι → TimerTask} (reach : (machine tasks).Reach k) {x : ι} {call : Call}
    (added : k.calls x = some call) (accepted : call.Accepted) :
    (k.fired x = [] ∨ k.fired x = [call.read + ticks call.nextFireDurationMs]) ∧
      ((k.wheel.tasks x).alive → call.read + ticks call.nextFireDurationMs < k.wheel.tickCount →
        k.fired x = [call.read + ticks call.nextFireDurationMs]) ∧
      k.wheel.tickCount = if k.pc = .tick then k.advances else k.advances + 1 := by
  have inv := inv_of_reach reach
  have count : k.wheel.tickCount = if k.pc = .tick then k.advances else k.advances + 1 := by
    obtain ⟨-, -, phase⟩ := inv.synced
    rcases inv.between with here | here
    · rw [here] at phase ⊢
      exact phase.1
    · rw [here] at phase ⊢
      exact phase.1
  rcases inv.due x call added accepted with ⟨fired, -⟩ | ⟨waits, inTime⟩
  · exact ⟨.inr fired, fun _ _ => fired, count⟩
  · refine ⟨.inl waits, fun alive past => ?_, count⟩
    exact absurd ((inTime alive).after inv.synced) (Nat.not_le_of_lt past)

/-- Three milliseconds are two ticks; another task is added meanwhile. -/
def twoTicks : List (Event Bool) :=
  [.addTask true 3, .tick, .advance, .addTask false 700, .tick, .advance, .tick, .advance]

theorem twoTicks_posted :
    let k := (machine fun _ => ⟨0, 0, true⟩).stateAt twoTicks 8
    k.calls true = some ⟨0, 0, 3, some 0⟩ ∧ k.fired true = [2] := by
  have reach := Machine.stateAt_reach (M := machine fun _ => ⟨0, 0, true⟩) twoTicks rfl
  exact ⟨rfl, (posted_exactly_once reach (x := true) rfl ⟨by decide, by decide⟩).2.1 rfl (by decide)⟩

end Exact

end CyberRT.TimingWheel

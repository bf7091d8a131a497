import CyberRT.Timer.TimingWheel

namespace CyberRT.TimingWheel
universe u

/-- Where `TickFunc` stands. -/
inductive TickPc
  | tick
  | advanceWork
  | advanceAssistant
  | cascade
  deriving DecidableEq

/-- The last call of `AddTask` for a task: the ticks before it, the advances of the work index before it was read,
the duration, and the ticks before the return. -/
structure Call where
  began : Nat
  read : Nat
  nextFireDurationMs : Nat
  returned : Option Nat

namespace Call

/-- The durations that a timer accepts. -/
def Accepted (call : Call) : Prop :=
  1 ≤ call.nextFireDurationMs ∧ call.nextFireDurationMs < timerMaxIntervalMs

/-- The tick, counted from zero, that follows as many advances after the index was read as the duration has
ticks. -/
def due (call : Call) : Nat :=
  call.read + ticks call.nextFireDurationMs

theorem Accepted.ticks {call : Call} (accepted : call.Accepted) :
    1 ≤ TimingWheel.ticks call.nextFireDurationMs ∧
      TimingWheel.ticks call.nextFireDurationMs ≤ workWheelSize * assistantWheelSize := by
  obtain ⟨lower, upper⟩ := accepted
  unfold timerMaxIntervalMs at upper
  unfold TimingWheel.ticks workWheelSize assistantWheelSize timerResolutionMs at *
  omega

end Call

/-- The wheel with its thread, the number of advances and cascades so far, the last call for each task, and the
ticks at which its callback was posted since. -/
structure Clock (ι : Type u) where
  wheel : TimingWheel ι
  pc : TickPc
  advances : Nat
  assistantAdvances : Nat
  cascades : Nat
  calls : ι → Option Call
  fired : ι → List Nat

namespace Clock
variable {ι : Type u}

def new (tasks : ι → TimerTask) : Clock ι :=
  ⟨.new tasks, .tick, 0, 0, 0, fun _ => none, fun _ => []⟩

/-- How many advances and cascades there have been where the thread stands. Tick `n` follows `n` advances. -/
def Synced (k : Clock ι) : Prop :=
  k.wheel.currentWorkWheelIndex = k.advances % workWheelSize ∧
    k.wheel.currentAssistantWheelIndex = k.assistantAdvances % assistantWheelSize ∧
    match k.pc with
    | .tick => k.wheel.tickCount = k.advances ∧ k.assistantAdvances = k.advances / workWheelSize ∧
        k.cascades = k.advances / workWheelSize
    | .advanceWork => k.wheel.tickCount = k.advances + 1 ∧ k.assistantAdvances = k.advances / workWheelSize ∧
        k.cascades = k.advances / workWheelSize
    | .advanceAssistant => k.wheel.tickCount = k.advances ∧ k.advances % workWheelSize = 0 ∧
        k.assistantAdvances + 1 = k.advances / workWheelSize ∧ k.cascades + 1 = k.advances / workWheelSize
    | .cascade => k.wheel.tickCount = k.advances ∧ k.advances % workWheelSize = 0 ∧
        k.assistantAdvances = k.advances / workWheelSize ∧ k.cascades + 1 = k.advances / workWheelSize

theorem Synced.advances_le {k : Clock ι} (synced : k.Synced) : k.advances ≤ k.wheel.tickCount := by
  obtain ⟨-, -, phase⟩ := synced
  cases here : k.pc <;> rw [here] at phase <;> simp only at phase <;> omega

theorem Synced.tickCount_le {k : Clock ι} (synced : k.Synced) : k.wheel.tickCount ≤ k.advances + 1 := by
  obtain ⟨-, -, phase⟩ := synced
  cases here : k.pc <;> rw [here] at phase <;> simp only at phase <;> omega

theorem synced_new (tasks : ι → TimerTask) : (new tasks).Synced :=
  ⟨rfl, rfl, rfl, (Nat.zero_div _).symm, (Nat.zero_div _).symm⟩

def advanceWork (k : Clock ι) : Clock ι :=
  { k with wheel := k.wheel.advanceWork
           advances := k.advances + 1
           pc := if k.wheel.advanceWork.currentWorkWheelIndex = 0 then .advanceAssistant else .tick }

def advanceAssistant (k : Clock ι) : Clock ι :=
  { k with wheel := k.wheel.advanceAssistant, assistantAdvances := k.assistantAdvances + 1, pc := .cascade }

def cascade (k : Clock ι) : Clock ι :=
  { k with wheel := k.wheel.cascade, cascades := k.cascades + 1, pc := .tick }

theorem Synced.advanceWork {k : Clock ι} (synced : k.Synced) (here : k.pc = .advanceWork) : k.advanceWork.Synced := by
  obtain ⟨work, assistant, phase⟩ := synced
  rw [here] at phase
  obtain ⟨count, advanced, cascaded⟩ := phase
  have next : k.wheel.advanceWork.currentWorkWheelIndex = (k.advances + 1) % workWheelSize := by
    rw [TimingWheel.advanceWork, getWorkWheelIndex_eq, work, Nat.mod_add_mod]
  refine ⟨next, assistant, ?_⟩
  unfold workWheelSize at *
  by_cases wraps : (k.advances + 1) % 512 = 0
  · have at0 : k.advanceWork.pc = .advanceAssistant := if_pos (next.trans wraps)
    rw [at0]
    refine ⟨count, wraps, ?_, ?_⟩
    · show k.assistantAdvances + 1 = (k.advances + 1) / 512
      omega
    · show k.cascades + 1 = (k.advances + 1) / 512
      omega
  · have atTick : k.advanceWork.pc = .tick := if_neg fun zero => wraps (next.symm.trans zero)
    rw [atTick]
    refine ⟨count, ?_, ?_⟩
    · show k.assistantAdvances = (k.advances + 1) / 512
      omega
    · show k.cascades = (k.advances + 1) / 512
      omega

theorem Synced.advanceAssistant {k : Clock ι} (synced : k.Synced) (here : k.pc = .advanceAssistant) :
    k.advanceAssistant.Synced := by
  obtain ⟨work, assistant, phase⟩ := synced
  rw [here] at phase
  obtain ⟨count, wrapped, advanced, cascaded⟩ := phase
  refine ⟨work, ?_, count, wrapped, advanced, cascaded⟩
  show getAssistantWheelIndex (k.wheel.currentAssistantWheelIndex + 1) = _
  rw [getAssistantWheelIndex_eq, assistant, Nat.mod_add_mod]
  rfl

theorem Synced.cascade {k : Clock ι} (synced : k.Synced) (here : k.pc = .cascade) : k.cascade.Synced := by
  obtain ⟨work, assistant, phase⟩ := synced
  rw [here] at phase
  obtain ⟨count, wrapped, advanced, cascaded⟩ := phase
  refine ⟨?_, ?_, ?_, advanced, cascaded⟩
  · rw [Clock.cascade, cascade_eq]
    exact work
  · rw [Clock.cascade, cascade_eq]
    exact assistant
  · rw [Clock.cascade, cascade_eq]
    exact count

variable [DecidableEq ι]

def tick (k : Clock ι) : Clock ι :=
  { k with wheel := k.wheel.tick.1
           pc := .advanceWork
           fired := fun x => k.fired x ++ List.replicate (k.wheel.tick.2.count x) k.wheel.tickCount }

theorem Synced.tick {k : Clock ι} (synced : k.Synced) (here : k.pc = .tick) : k.tick.Synced := by
  obtain ⟨work, assistant, phase⟩ := synced
  rw [here] at phase
  obtain ⟨count, advanced, cascaded⟩ := phase
  exact ⟨work, assistant, congrArg (· + 1) count, advanced, cascaded⟩

/-- The task waits in a bucket that the thread comes to in time for tick `due`: in the work wheel less than a
revolution before, or in the assistant wheel for the cascade at the start of the revolution of `due`. -/
def InTime (k : Clock ι) (x : ι) (due : Nat) : Prop :=
  (k.wheel.Where x (some (.work (due % workWheelSize))) ∧ k.wheel.tickCount ≤ due ∧
      due < k.wheel.tickCount + workWheelSize) ∨
    (k.wheel.Where x (some (.assistant (due / workWheelSize % assistantWheelSize))) ∧
      (k.wheel.tasks x).remainderIntervalMs = due % workWheelSize ∧
      k.cascades < due / workWheelSize ∧ due / workWheelSize ≤ k.cascades + assistantWheelSize)

theorem InTime.after {k : Clock ι} {x : ι} {due : Nat} (inTime : k.InTime x due) (synced : k.Synced) :
    k.wheel.tickCount ≤ due := by
  rcases inTime with ⟨-, lower, -⟩ | ⟨-, -, lower, -⟩
  · exact lower
  · obtain ⟨-, -, phase⟩ := synced
    unfold workWheelSize at *
    cases here : k.pc <;> rw [here] at phase <;> simp only at phase <;> omega

/-- The callback has been posted at tick `due` and at no other, or the task is in time if it is alive. -/
def Due (k : Clock ι) (x : ι) (due : Nat) : Prop :=
  (k.fired x = [due] ∧ due < k.wheel.tickCount ∧ k.wheel.Where x none) ∨
    (k.fired x = [] ∧ ((k.wheel.tasks x).alive → k.InTime x due))

/-- A task is in one bucket at most, and in none before it is added and after its callback has been posted. -/
def Once (k : Clock ι) (x : ι) : Prop :=
  ∃ place, k.wheel.Where x place ∧ (place ≠ none → k.fired x = [] ∧ k.calls x ≠ none)

theorem tick_fired {k : Clock ι} {x : ι} (none : k.wheel.tick.2.count x = 0) : k.tick.fired x = k.fired x := by
  simp [Clock.tick, none]

theorem Once.tick {k : Clock ι} {x : ι} (once : k.Once x) : k.tick.Once x := by
  obtain ⟨place, placed, waits⟩ := once
  obtain ⟨after, posted⟩ := placed.tick
  refine ⟨_, after, fun somewhere => ?_⟩
  by_cases here : place = some (.work k.wheel.currentWorkWheelIndex)
  · exact absurd (if_pos here) somewhere
  · rw [if_neg here] at somewhere
    rw [if_neg fun both => here both.1] at posted
    rw [tick_fired posted]
    exact waits somewhere

theorem Once.cascade {k : Clock ι} {x : ι} (once : k.Once x) : k.cascade.Once x := by
  obtain ⟨place, placed, waits⟩ := once
  refine ⟨_, placed.cascade, fun somewhere => waits fun nowhere => somewhere ?_⟩
  rw [nowhere]
  rfl

/-- The tick at which a task is due posts its callback; no earlier tick comes to its bucket. -/
theorem Due.tick {k : Clock ι} {x : ι} {due : Nat} (onTime : k.Due x due) (synced : k.Synced) (here : k.pc = .tick) :
    k.tick.Due x due := by
  obtain ⟨work, -, phase⟩ := synced
  rw [here] at phase
  obtain ⟨count, -, cascaded⟩ := phase
  rcases onTime with ⟨fired, past, absent⟩ | ⟨waits, inTime⟩
  · obtain ⟨after, posted⟩ := absent.tick
    rw [if_neg (by simp)] at posted after
    exact .inl ⟨(tick_fired posted).trans fired, Nat.lt_succ_of_lt past, after⟩
  by_cases alive : (k.wheel.tasks x).alive
  · rcases inTime alive with ⟨placed, lower, upper⟩ | ⟨placed, remainder, lower, upper⟩
    · obtain ⟨after, posted⟩ := placed.tick
      by_cases now : due = k.wheel.tickCount
      · have same : some (Place.work (due % workWheelSize)) = some (.work k.wheel.currentWorkWheelIndex) := by
          rw [work, now, count]
        rw [if_pos ⟨same, alive⟩] at posted
        rw [if_pos same] at after
        refine .inl ⟨?_, now ▸ Nat.lt_succ_self _, after⟩
        simp [Clock.tick, posted, waits, now]
      · have different : some (Place.work (due % workWheelSize)) ≠ some (.work k.wheel.currentWorkWheelIndex) := by
          rw [work, ← count]
          unfold workWheelSize at *
          simp only [ne_eq, Option.some.injEq, Place.work.injEq]
          omega
        rw [if_neg fun both => different both.1] at posted
        rw [if_neg different] at after
        refine .inr ⟨(tick_fired posted).trans waits, fun _ => .inl ⟨after, ?_, ?_⟩⟩
        · exact Nat.succ_le_of_lt (lt_of_le_of_ne lower (Ne.symm now))
        · exact upper.trans_le (Nat.add_le_add_right (Nat.le_succ _) _)
    · obtain ⟨after, posted⟩ := placed.tick
      rw [if_neg (by simp)] at posted after
      exact .inr ⟨(tick_fired posted).trans waits, fun _ => .inr ⟨after, remainder, lower, upper⟩⟩
  · have posted : k.wheel.tick.2.count x = 0 := by
      rw [TimingWheel.tick, count_alive, if_neg alive]
    exact .inr ⟨(tick_fired posted).trans waits, fun still => absurd still alive⟩

/-- The cascade at the start of the revolution in which a task is due takes it to its bucket of the work wheel. -/
theorem Due.cascade {k : Clock ι} {x : ι} {due : Nat} (onTime : k.Due x due) (synced : k.Synced)
    (here : k.pc = .cascade) : k.cascade.Due x due := by
  obtain ⟨-, assistant, phase⟩ := synced
  rw [here] at phase
  obtain ⟨count, wrapped, advanced, cascaded⟩ := phase
  have same : k.cascade.wheel.tickCount = k.wheel.tickCount ∧ k.cascade.wheel.tasks = k.wheel.tasks := by
    rw [Clock.cascade, cascade_eq]
    exact ⟨rfl, rfl⟩
  unfold Due InTime at *
  rw [same.1, same.2]
  rcases onTime with ⟨fired, past, absent⟩ | ⟨waits, inTime⟩
  · have after := absent.cascade
    rw [if_neg (by simp)] at after
    exact .inl ⟨fired, past, after⟩
  refine .inr ⟨waits, fun alive => ?_⟩
  rcases inTime alive with ⟨placed, lower, upper⟩ | ⟨placed, remainder, lower, upper⟩
  · have after := placed.cascade
    rw [if_neg (by simp)] at after
    exact .inl ⟨after, lower, upper⟩
  · have after := placed.cascade
    by_cases now : due / workWheelSize = k.cascades + 1
    · have bucket : some (Place.assistant (due / workWheelSize % assistantWheelSize)) =
          some (.assistant k.wheel.currentAssistantWheelIndex) := by
        rw [assistant, now, advanced, cascaded]
      rw [if_pos bucket, if_pos alive, remainder] at after
      refine .inl ⟨after, ?_, ?_⟩ <;> unfold workWheelSize at * <;> omega
    · have other : some (Place.assistant (due / workWheelSize % assistantWheelSize)) ≠
          some (.assistant k.wheel.currentAssistantWheelIndex) := by
        rw [assistant, advanced, ← cascaded]
        unfold assistantWheelSize at *
        simp only [ne_eq, Option.some.injEq, Place.assistant.injEq]
        omega
      rw [if_neg other] at after
      refine .inr ⟨after, remainder, ?_, ?_⟩
      · show k.cascades + 1 < _
        omega
      · show _ ≤ k.cascades + 1 + assistantWheelSize
        omega

/-- A step that does not touch the task, the ticks and the cascades. -/
structure Keeps (k k' : Clock ι) (x : ι) : Prop where
  tickCount : k'.wheel.tickCount = k.wheel.tickCount
  cascades : k'.cascades = k.cascades
  fired : k'.fired x = k.fired x
  calls : k'.calls x = k.calls x
  task : k'.wheel.tasks x = k.wheel.tasks x
  placed : ∀ place, k.wheel.Where x place → k'.wheel.Where x place

theorem Once.keeps {k k' : Clock ι} {x : ι} (once : k.Once x) (keeps : Keeps k k' x) : k'.Once x := by
  obtain ⟨place, placed, waits⟩ := once
  refine ⟨place, keeps.placed place placed, ?_⟩
  rw [keeps.fired, keeps.calls]
  exact waits

theorem InTime.keeps {k k' : Clock ι} {x : ι} {due : Nat} (inTime : k.InTime x due) (keeps : Keeps k k' x) :
    k'.InTime x due := by
  unfold InTime
  rw [keeps.tickCount, keeps.cascades, keeps.task]
  rcases inTime with ⟨placed, bounds⟩ | ⟨placed, bounds⟩
  · exact .inl ⟨keeps.placed _ placed, bounds⟩
  · exact .inr ⟨keeps.placed _ placed, bounds⟩

theorem Due.keeps {k k' : Clock ι} {x : ι} {due : Nat} (onTime : k.Due x due) (keeps : Keeps k k' x) :
    k'.Due x due := by
  unfold Due
  rw [keeps.tickCount, keeps.fired, keeps.task]
  rcases onTime with ⟨fired, past, absent⟩ | ⟨waits, inTime⟩
  · exact .inl ⟨fired, past, keeps.placed _ absent⟩
  · exact .inr ⟨waits, fun alive => (inTime alive).keeps keeps⟩

theorem keeps_advanceWork (k : Clock ι) (x : ι) : Keeps k k.advanceWork x :=
  ⟨rfl, rfl, rfl, rfl, rfl, fun _ => id⟩

theorem keeps_advanceAssistant (k : Clock ι) (x : ι) : Keeps k k.advanceAssistant x :=
  ⟨rfl, rfl, rfl, rfl, rfl, fun _ => id⟩

/-- The task dies. -/
def expire (k : Clock ι) (x : ι) : Clock ι :=
  { k with wheel := k.wheel.setTask x { k.wheel.tasks x with alive := false } }

theorem Once.expire {k : Clock ι} {x : ι} (once : k.Once x) (y : ι) : (k.expire y).Once x :=
  once

theorem Due.expire {k : Clock ι} {x : ι} {due : Nat} (onTime : k.Due x due) (y : ι) : (k.expire y).Due x due := by
  by_cases same : x = y
  · subst same
    rcases onTime with past | ⟨waits, -⟩
    · exact .inl past
    · refine .inr ⟨waits, fun alive => ?_⟩
      simp [Clock.expire, setTask] at alive
  · refine onTime.keeps ⟨rfl, rfl, rfl, rfl, ?_, fun _ => id⟩
    simp [Clock.expire, setTask, same]

/-- A task is put into a bucket of the work wheel before the tick at which it is due. -/
theorem due_insertWork {k : Clock ι} {x : ι} {due : Nat} (absent : k.wheel.Where x none) (waits : k.fired x = [])
    (lower : k.wheel.tickCount ≤ due) (upper : due < k.wheel.tickCount + workWheelSize) :
    Due { k with wheel := k.wheel.insert (.work (due % workWheelSize)) x } x due :=
  .inr ⟨waits, fun _ => .inl ⟨absent.insert _, lower, upper⟩⟩

/-- A task is put into a bucket of the assistant wheel before the cascade of the revolution in which it is due. -/
theorem due_insertAssistant {k : Clock ι} {x : ι} {due : Nat} (absent : k.wheel.Where x none) (waits : k.fired x = [])
    (remainder : (k.wheel.tasks x).remainderIntervalMs = due % workWheelSize)
    (lower : k.cascades < due / workWheelSize) (upper : due / workWheelSize ≤ k.cascades + assistantWheelSize) :
    Due { k with wheel := k.wheel.insert (.assistant (due / workWheelSize % assistantWheelSize)) x } x due :=
  .inr ⟨waits, fun _ => .inr ⟨absent.insert _, remainder, lower, upper⟩⟩

end Clock

end CyberRT.TimingWheel

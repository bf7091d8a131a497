import CyberRT.Lib.Machine
import Mathlib.Data.List.Basic

namespace CyberRT
universe u

/-- The fields of a task that the wheel uses. A bucket has a weak pointer, which cannot be locked once the task
is not alive. -/
structure TimerTask where
  remainderIntervalMs : Nat
  nextFireDurationMs : Nat
  alive : Bool

namespace TimingWheel

def workWheelSize : Nat := 512
def assistantWheelSize : Nat := 64
def timerResolutionMs : Nat := 2
def timerMaxIntervalMs : Nat := workWheelSize * assistantWheelSize * timerResolutionMs

def getWorkWheelIndex (index : Nat) : Nat :=
  index &&& (workWheelSize - 1)

def getAssistantWheelIndex (index : Nat) : Nat :=
  index &&& (assistantWheelSize - 1)

/-- The duration in ticks, rounded up. -/
def ticks (nextFireDurationMs : Nat) : Nat :=
  (nextFireDurationMs + (timerResolutionMs - 1)) / timerResolutionMs

/-- A bucket of the work wheel or of the assistant wheel. -/
inductive Place
  | work (index : Nat)
  | assistant (index : Nat)
  deriving DecidableEq

end TimingWheel

structure TimingWheel (ι : Type u) where
  running : Bool
  tickCount : Nat
  bucket : TimingWheel.Place → List ι
  currentWorkWheelIndex : Nat
  currentAssistantWheelIndex : Nat
  tasks : ι → TimerTask

namespace TimingWheel
variable {ι : Type u}

def new (tasks : ι → TimerTask) : TimingWheel ι :=
  ⟨false, 0, fun _ => [], 0, 0, tasks⟩

/-- `TimerBucket::AddTask` -/
def insert (w : TimingWheel ι) (place : Place) (x : ι) : TimingWheel ι :=
  { w with bucket := Function.update w.bucket place (w.bucket place ++ [x]) }

/-- `Tick` and the count after it, with the tasks whose callbacks are posted. -/
def tick (w : TimingWheel ι) : TimingWheel ι × List ι :=
  let here := Place.work w.currentWorkWheelIndex
  ({ w with bucket := Function.update w.bucket here [], tickCount := w.tickCount + 1 },
    (w.bucket here).filter fun x => (w.tasks x).alive)

def advanceWork (w : TimingWheel ι) : TimingWheel ι :=
  { w with currentWorkWheelIndex := getWorkWheelIndex (w.currentWorkWheelIndex + 1) }

def advanceAssistant (w : TimingWheel ι) : TimingWheel ι :=
  { w with currentAssistantWheelIndex := getAssistantWheelIndex (w.currentAssistantWheelIndex + 1) }

/-- `Cascade` of the current bucket of the assistant wheel. -/
def cascade (w : TimingWheel ι) : TimingWheel ι :=
  let here := Place.assistant w.currentAssistantWheelIndex
  ((w.bucket here).filter fun x => (w.tasks x).alive).foldl
    (fun w x => w.insert (.work (w.tasks x).remainderIntervalMs) x)
    { w with bucket := Function.update w.bucket here [] }

/-- A cascade changes nothing but the buckets. -/
theorem cascade_eq (w : TimingWheel ι) : w.cascade = { w with bucket := w.cascade.bucket } := by
  have fold : ∀ (xs : List ι) (v : TimingWheel ι),
      xs.foldl (fun w x => w.insert (.work (w.tasks x).remainderIntervalMs) x) v =
        { v with bucket :=
            (xs.foldl (fun w x => w.insert (.work (w.tasks x).remainderIntervalMs) x) v).bucket } := by
    intro xs
    induction xs with
    | nil => exact fun _ => rfl
    | cons y xs ih => exact fun v => ih _
  exact fold _ _

variable [DecidableEq ι]

def setTask (w : TimingWheel ι) (x : ι) (task : TimerTask) : TimingWheel ι :=
  { w with tasks := Function.update w.tasks x task }

/-- `AddTask` with the index that the caller has read. `Start` is a part of it. -/
def addTask (w : TimingWheel ι) (x : ι) (currentWorkWheelIndex : Nat) : TimingWheel ι :=
  let w := { w with running := true }
  let workWheelIndex := currentWorkWheelIndex + ticks (w.tasks x).nextFireDurationMs
  if workWheelSize ≤ workWheelIndex then
    let realWorkWheelIndex := getWorkWheelIndex workWheelIndex
    let w := w.setTask x { w.tasks x with remainderIntervalMs := realWorkWheelIndex }
    let assistantTicks := workWheelIndex / workWheelSize
    if assistantTicks = 1 ∧ realWorkWheelIndex < w.currentWorkWheelIndex then
      w.insert (.work realWorkWheelIndex) x
    else
      w.insert (.assistant (getAssistantWheelIndex (w.currentAssistantWheelIndex + assistantTicks))) x
  else
    w.insert (.work workWheelIndex) x

theorem getWorkWheelIndex_eq (index : Nat) : getWorkWheelIndex index = index % workWheelSize :=
  Nat.and_two_pow_sub_one_eq_mod index 9

theorem getAssistantWheelIndex_eq (index : Nat) : getAssistantWheelIndex index = index % assistantWheelSize :=
  Nat.and_two_pow_sub_one_eq_mod index 6

/-- The task is in this bucket once and in no other, or in no bucket at all. -/
def Where (w : TimingWheel ι) (x : ι) (place : Option Place) : Prop :=
  ∀ q, (w.bucket q).count x = if place = some q then 1 else 0

theorem Where.insert {w : TimingWheel ι} {x : ι} (absent : w.Where x none) (p : Place) :
    (w.insert p x).Where x (some p) := by
  intro q
  have nowhere := absent q
  by_cases same : q = p
  · subst same
    simp [TimingWheel.insert, nowhere]
  · simp [TimingWheel.insert, same, Ne.symm same, nowhere]

theorem Where.insert_other {w : TimingWheel ι} {x y : ι} {place : Option Place} (placed : w.Where x place)
    (p : Place) (different : y ≠ x) : (w.insert p y).Where x place := by
  intro q
  have here := placed q
  by_cases same : q = p
  · subst same
    simp [TimingWheel.insert, here, different]
  · simp [TimingWheel.insert, same, here]

theorem count_alive (tasks : ι → TimerTask) (xs : List ι) (x : ι) :
    (xs.filter fun x => (tasks x).alive).count x = if (tasks x).alive then xs.count x else 0 := by
  by_cases alive : (tasks x).alive
  · rw [if_pos alive, List.count_filter (p := fun x => (tasks x).alive) alive]
  · have gone : x ∉ xs.filter fun x => (tasks x).alive := by simp [alive]
    rw [if_neg alive, List.count_eq_zero.mpr gone]

/-- What a tick does to a task. -/
theorem Where.tick {w : TimingWheel ι} {x : ι} {place : Option Place} (placed : w.Where x place) :
    w.tick.1.Where x (if place = some (.work w.currentWorkWheelIndex) then none else place) ∧
      w.tick.2.count x =
        if place = some (.work w.currentWorkWheelIndex) ∧ (w.tasks x).alive then 1 else 0 := by
  refine ⟨fun q => ?_, ?_⟩
  · have here := placed q
    by_cases own : place = some (.work w.currentWorkWheelIndex)
    · subst own
      by_cases same : q = .work w.currentWorkWheelIndex
      · subst same
        simp [TimingWheel.tick]
      · simp [TimingWheel.tick, same, Ne.symm same, here]
    · rw [if_neg own]
      by_cases same : q = .work w.currentWorkWheelIndex
      · subst same
        simp [TimingWheel.tick, own]
      · simp [TimingWheel.tick, same, here]
  · have here := placed (.work w.currentWorkWheelIndex)
    rw [TimingWheel.tick, count_alive, here]
    by_cases alive : (w.tasks x).alive <;> simp [alive]

theorem foldl_insert_count (xs : List ι) (w : TimingWheel ι) (x : ι) (q : Place) :
    ((xs.foldl (fun w x => w.insert (.work (w.tasks x).remainderIntervalMs) x) w).bucket q).count x =
      (w.bucket q).count x + if q = .work (w.tasks x).remainderIntervalMs then xs.count x else 0 := by
  induction xs generalizing w with
  | nil => simp
  | cons y xs ih =>
    have tasks : (w.insert (.work (w.tasks y).remainderIntervalMs) y).tasks = w.tasks := rfl
    rw [List.foldl_cons, ih, tasks]
    by_cases same : y = x
    · subst same
      by_cases here : q = .work (w.tasks y).remainderIntervalMs
      · subst here
        simp [TimingWheel.insert]
        omega
      · simp [TimingWheel.insert, here]
    · have other : ((w.insert (.work (w.tasks y).remainderIntervalMs) y).bucket q).count x = (w.bucket q).count x := by
        by_cases here : q = .work (w.tasks y).remainderIntervalMs
        · subst here
          simp [TimingWheel.insert, same]
        · simp [TimingWheel.insert, here]
      rw [other]
      simp [same]

/-- What a cascade does to a task: it moves it to the work wheel, or drops it if it is not alive. -/
theorem Where.cascade {w : TimingWheel ι} {x : ι} {place : Option Place} (placed : w.Where x place) :
    w.cascade.Where x (if place = some (.assistant w.currentAssistantWheelIndex) then
      (if (w.tasks x).alive then some (.work (w.tasks x).remainderIntervalMs) else none) else place) := by
  intro q
  have here := placed q
  have there := placed (.assistant w.currentAssistantWheelIndex)
  rw [TimingWheel.cascade, foldl_insert_count, count_alive, there]
  have cleared : (Function.update w.bucket (.assistant w.currentAssistantWheelIndex) [] q).count x =
      if q = .assistant w.currentAssistantWheelIndex then 0 else if place = some q then 1 else 0 := by
    by_cases same : q = .assistant w.currentAssistantWheelIndex
    · subst same
      simp
    · simp [same, here]
  rw [cleared]
  by_cases own : place = some (.assistant w.currentAssistantWheelIndex)
  · subst own
    by_cases alive : (w.tasks x).alive <;> by_cases same : q = .assistant w.currentAssistantWheelIndex
    · subst same
      simp [alive]
    · simp [alive, same, eq_comm]
    · subst same
      simp [alive]
    · simp [alive, Ne.symm same]
  · by_cases same : q = .assistant w.currentAssistantWheelIndex
    · subst same
      simp [own]
    · simp [own, same]

end TimingWheel

end CyberRT

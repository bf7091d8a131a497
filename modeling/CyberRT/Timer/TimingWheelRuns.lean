import CyberRT.Lib.Flags
import CyberRT.Timer.TimingWheelExact

namespace CyberRT.TimingWheel
open Concur
universe u v

/-- Where a thread stands in `AddTask`, with its locals: the read of the work index for the call, `Start` and the
choice of the wheel, the read of the work index in the comparison, the read of the assistant index under its mutex,
and the bucket. -/
inductive AddPc (ι : Type u)
  | idle
  | readIndex (x : ι)
  | start (x : ι) (currentWorkWheelIndex : Nat)
  | compare (x : ι) (realWorkWheelIndex assistantTicks : Nat)
  | insertWork (x : ι) (workWheelIndex : Nat)
  | readAssistant (x : ι) (assistantTicks : Nat)
  | insertAssistant (x : ι) (assistantWheelIndex assistantTicks : Nat)

/-- Any number of threads in `AddTask`, and the mutex of the assistant index. -/
structure Threads (τ : Type v) (ι : Type u) where
  clock : Clock ι
  threads : τ → AddPc ι
  assistantLocked : Bool

inductive Event (τ : Type v) (ι : Type u)
  | call (t : τ) (x : ι) (nextFireDurationMs : Nat)
  | add (t : τ)
  | tickFunc
  | expire (x : ι)
  | shutdown

namespace Threads
variable {τ : Type v} {ι : Type u} [DecidableEq τ] [DecidableEq ι]

def goto (s : Threads τ ι) (t : τ) (pc : AddPc ι) : Threads τ ι :=
  { s with threads := Function.update s.threads t pc }

/-- The first read of the work index. -/
def readIndex (k : Clock ι) (x : ι) : Clock ι :=
  { k with calls := Function.update k.calls x ((k.calls x).map fun call => { call with read := k.advances }) }

/-- The task is put into its bucket, and `AddTask` returns. -/
def insert (k : Clock ι) (x : ι) (place : Place) : Clock ι :=
  { k with wheel := k.wheel.insert place x
           calls := Function.update k.calls x
            ((k.calls x).map fun call => { call with returned := some k.wheel.tickCount }) }

/-- `Start`, which does nothing if the wheel runs. -/
def startWheel (k : Clock ι) : Clock ι :=
  { k with wheel := { k.wheel with running := true } }

def setRemainder (k : Clock ι) (x : ι) (remainderIntervalMs : Nat) : Clock ι :=
  { k with wheel := k.wheel.setTask x { k.wheel.tasks x with remainderIntervalMs := remainderIntervalMs } }

/-- `Start`, and the choice of the wheel. -/
def start (s : Threads τ ι) (t : τ) (x : ι) (currentWorkWheelIndex : Nat) : Threads τ ι :=
  let workWheelIndex := currentWorkWheelIndex + ticks (s.clock.wheel.tasks x).nextFireDurationMs
  if workWheelSize ≤ workWheelIndex then
    let realWorkWheelIndex := getWorkWheelIndex workWheelIndex
    let assistantTicks := workWheelIndex / workWheelSize
    { s with clock := setRemainder (startWheel s.clock) x realWorkWheelIndex }.goto t
      (if assistantTicks = 1 then .compare x realWorkWheelIndex assistantTicks else .readAssistant x assistantTicks)
  else { s with clock := startWheel s.clock }.goto t (.insertWork x workWheelIndex)

/-- One step of `AddTask`. -/
def add (s : Threads τ ι) (t : τ) : Option (Threads τ ι) :=
  match s.threads t with
  | .idle => none
  | .readIndex x =>
    some ({ s with clock := readIndex s.clock x }.goto t (.start x s.clock.wheel.currentWorkWheelIndex))
  | .start x currentWorkWheelIndex =>
    if s.clock.wheel.running ∨ s.clock.pc = .tick then some (s.start t x currentWorkWheelIndex) else none
  | .compare x realWorkWheelIndex assistantTicks =>
    if realWorkWheelIndex < s.clock.wheel.currentWorkWheelIndex then some (s.goto t (.insertWork x realWorkWheelIndex))
    else some (s.goto t (.readAssistant x assistantTicks))
  | .insertWork x workWheelIndex =>
    some ({ s with clock := insert s.clock x (.work workWheelIndex) }.goto t .idle)
  | .readAssistant x assistantTicks =>
    if s.assistantLocked then none
    else some ({ s with assistantLocked := true }.goto t (.insertAssistant x
      (getAssistantWheelIndex (s.clock.wheel.currentAssistantWheelIndex + assistantTicks)) assistantTicks))
  | .insertAssistant x assistantWheelIndex _ =>
    some ({ s with clock := insert s.clock x (.assistant assistantWheelIndex), assistantLocked := false }.goto t .idle)

/-- One step of `TickFunc`. -/
def tickFunc (s : Threads τ ι) : Option (Threads τ ι) :=
  match s.clock.pc with
  | .tick => if s.clock.wheel.running then some { s with clock := s.clock.tick } else none
  | .advanceWork => some { s with clock := s.clock.advanceWork }
  | .advanceAssistant => if s.assistantLocked then none else some { s with clock := s.clock.advanceAssistant }
  | .cascade => some { s with clock := s.clock.cascade }

/-- A timer calls `AddTask`. -/
def call (s : Threads τ ι) (t : τ) (x : ι) (nextFireDurationMs : Nat) : Threads τ ι :=
  let task := { s.clock.wheel.tasks x with nextFireDurationMs := nextFireDurationMs }
  { s with clock := { s.clock with
      wheel := s.clock.wheel.setTask x task
      calls := Function.update s.clock.calls x
        (some ⟨s.clock.wheel.tickCount, s.clock.advances, nextFireDurationMs, none⟩)
      fired := Function.update s.clock.fired x [] } }.goto t (.readIndex x)

/-- A call for the task has started and not returned. -/
def Adding (s : Threads τ ι) (x : ι) : Prop :=
  ∃ call, s.clock.calls x = some call ∧ call.returned = none

instance (s : Threads τ ι) (x : ι) : Decidable (s.Adding x) :=
  decidable_of_iff ((s.clock.calls x).any fun call => call.returned.isNone) (by
    simp [Adding, Option.any_eq_true, Option.isNone_iff_eq_none])

/-- The steps of `AddTask` in any number of threads and those of `TickFunc`. -/
def machine (τ : Type v) [DecidableEq τ] (tasks : ι → TimerTask) : Machine (Threads τ ι) (Event τ ι) where
  init := ⟨.new tasks, fun _ => .idle, false⟩
  step s
    | .call t x nextFireDurationMs =>
      match s.threads t with
      | .idle => if s.clock.Adds x ∧ ¬ s.Adding x then some (s.call t x nextFireDurationMs) else none
      | _ => none
    | .add t => s.add t
    | .tickFunc => s.tickFunc
    -- the caller of `AddTask` has a shared pointer to the task
    | .expire x => if s.Adding x then none else some { s with clock := s.clock.expire x }
    | .shutdown => some { s with clock := { s.clock with wheel := { s.clock.wheel with running := false } } }

/-- What keeps a task in time: when it is put into a bucket of the work wheel, the tick at which it is due has not
been done; when it is put into a bucket of the assistant wheel, the assistant index is the one of the revolution in
which the work index was read, and it is not the current bucket while the cascade of that bucket is still to come. -/
def OnTime (s : Threads τ ι) : Event τ ι → Prop
  | .add t =>
    match s.threads t with
    | .insertWork x _ =>
      ∀ call, s.clock.calls x = some call → call.Accepted → s.clock.wheel.tickCount ≤ call.due
    | .insertAssistant x _ assistantTicks =>
      ∀ call, s.clock.calls x = some call → call.Accepted →
        s.clock.assistantAdvances = call.read / workWheelSize ∧
          ¬ (assistantTicks = assistantWheelSize ∧ s.clock.pc = .cascade)
    | _ => True
  | _ => True

end Threads

namespace AddPc
variable {ι : Type u}

/-- The task that is being added. -/
def task : AddPc ι → Option ι
  | .idle => none
  | .readIndex x | .start x _ | .compare x _ _ | .insertWork x _ | .readAssistant x _ | .insertAssistant x _ _ => some x

/-- The thread has the mutex of the assistant index. -/
def locks : AddPc ι → Option Unit
  | .insertAssistant _ _ _ => some ()
  | .idle | .readIndex _ | .start _ _ | .compare _ _ _ | .insertWork _ _ | .readAssistant _ _ => none

variable [DecidableEq ι]

/-- A call of `AddTask` in progress. -/
structure Calling (k : Clock ι) (x : ι) (call : Call) : Prop where
  called : k.calls x = some call
  going : call.returned = none
  waits : k.fired x = []
  absent : k.wheel.Where x none
  duration : (k.wheel.tasks x).nextFireDurationMs = call.nextFireDurationMs
  began : call.began ≤ k.wheel.tickCount

/-- It has read the work index. -/
structure Read (k : Clock ι) (x : ι) (call : Call) : Prop extends Calling k x call where
  soon : call.began ≤ call.read + 1
  read : call.read ≤ k.advances

/-- It is due in a later revolution. -/
structure Far (k : Clock ι) (x : ι) (call : Call) (assistantTicks : Nat) : Prop extends Read k x call where
  revolution : call.due / workWheelSize = call.read / workWheelSize + assistantTicks
  later : 1 ≤ assistantTicks
  remainder : (k.wheel.tasks x).remainderIntervalMs = call.due % workWheelSize

def At (k : Clock ι) : AddPc ι → Prop
  | .idle => True
  | .readIndex x => ∃ call, Calling k x call
  | .start x index => ∃ call, Read k x call ∧ index = call.read % workWheelSize
  | .compare x index assistantTicks =>
    ∃ call, Far k x call assistantTicks ∧ assistantTicks = 1 ∧ index = call.due % workWheelSize
  | .insertWork x index =>
    ∃ call, Read k x call ∧ index = call.due % workWheelSize ∧ call.due < k.advances + workWheelSize
  | .readAssistant x assistantTicks => ∃ call, Far k x call assistantTicks
  | .insertAssistant x index assistantTicks =>
    ∃ call, Far k x call assistantTicks ∧ index = (k.assistantAdvances + assistantTicks) % assistantWheelSize

/-- A step that does not touch the task; the ticks and the advances go on. -/
structure Frame (k k' : Clock ι) (x : ι) : Prop where
  calls : k'.calls x = k.calls x
  fired : k.fired x = [] → k.wheel.Where x none → k'.fired x = []
  absent : k.wheel.Where x none → k'.wheel.Where x none
  task : k'.wheel.tasks x = k.wheel.tasks x
  tickCount : k.wheel.tickCount ≤ k'.wheel.tickCount
  advances : k.advances ≤ k'.advances

variable {k k' : Clock ι} {x : ι} {call : Call}

theorem Calling.frame (calling : Calling k x call) (frame : Frame k k' x) : Calling k' x call where
  called := frame.calls.trans calling.called
  going := calling.going
  waits := frame.fired calling.waits calling.absent
  absent := frame.absent calling.absent
  duration := by
    rw [frame.task]
    exact calling.duration
  began := calling.began.trans frame.tickCount

theorem Read.frame (read : Read k x call) (frame : Frame k k' x) : Read k' x call where
  toCalling := read.toCalling.frame frame
  soon := read.soon
  read := read.read.trans frame.advances

theorem Far.frame {assistantTicks : Nat} (far : Far k x call assistantTicks) (frame : Frame k k' x) :
    Far k' x call assistantTicks where
  toRead := far.toRead.frame frame
  revolution := far.revolution
  later := far.later
  remainder := by
    rw [frame.task]
    exact far.remainder

/-- A step that does not touch the task keeps what is known of its call, if the assistant index stays while the
call has the mutex. -/
theorem At.frame {pc : AddPc ι} (here : pc.At k) (frame : ∀ x, pc.task = some x → Frame k k' x)
    (assistant : pc.locks = some () → k'.assistantAdvances = k.assistantAdvances) : pc.At k' := by
  cases pc with
  | idle => trivial
  | readIndex x =>
    obtain ⟨call, calling⟩ := here
    exact ⟨call, calling.frame (frame x rfl)⟩
  | start x index =>
    obtain ⟨call, read, same⟩ := here
    exact ⟨call, read.frame (frame x rfl), same⟩
  | compare x index assistantTicks =>
    obtain ⟨call, far, same⟩ := here
    exact ⟨call, far.frame (frame x rfl), same⟩
  | insertWork x index =>
    obtain ⟨call, read, same, near⟩ := here
    exact ⟨call, read.frame (frame x rfl), same, near.trans_le (Nat.add_le_add_right (frame x rfl).advances _)⟩
  | readAssistant x assistantTicks =>
    obtain ⟨call, far⟩ := here
    exact ⟨call, far.frame (frame x rfl)⟩
  | insertAssistant x index assistantTicks =>
    obtain ⟨call, far, same⟩ := here
    refine ⟨call, far.frame (frame x rfl), ?_⟩
    rw [assistant rfl]
    exact same

theorem At.calling {pc : AddPc ι} (here : pc.At k) (adding : pc.task = some x) : ∃ call, Calling k x call := by
  cases pc with
  | idle => cases adding
  | readIndex y | readAssistant y _ | start y _ | compare y _ _ | insertWork y _ | insertAssistant y _ _ =>
    cases adding
    obtain ⟨call, known⟩ := here
    first
      | exact ⟨call, known⟩
      | exact ⟨call, known.toCalling⟩
      | exact ⟨call, known.1.toCalling⟩

/-- A step that touches one task, and neither the ticks nor the advances. -/
structure Touches (k k' : Clock ι) (x : ι) : Prop where
  pc : k'.pc = k.pc
  work : k'.wheel.currentWorkWheelIndex = k.wheel.currentWorkWheelIndex
  assistant : k'.wheel.currentAssistantWheelIndex = k.wheel.currentAssistantWheelIndex
  tickCount : k'.wheel.tickCount = k.wheel.tickCount
  advances : k'.advances = k.advances
  assistantAdvances : k'.assistantAdvances = k.assistantAdvances
  cascades : k'.cascades = k.cascades
  others : ∀ y, y ≠ x → k.Keeps k' y

theorem Touches.refl (k : Clock ι) (x : ι) : Touches k k x :=
  ⟨rfl, rfl, rfl, rfl, rfl, rfl, rfl, fun _ _ => ⟨rfl, rfl, rfl, rfl, rfl, fun _ => id⟩⟩

theorem Touches.synced (touches : Touches k k' x) (synced : k.Synced) : k'.Synced := by
  unfold Clock.Synced
  rw [touches.pc, touches.work, touches.assistant, touches.tickCount, touches.advances, touches.assistantAdvances,
    touches.cascades]
  exact synced

theorem Touches.frame (touches : Touches k k' x) {y : ι} (different : y ≠ x) : Frame k k' y where
  calls := (touches.others y different).calls
  fired waits _ := (touches.others y different).fired.trans waits
  absent := (touches.others y different).placed none
  task := (touches.others y different).task
  tickCount := touches.tickCount.ge
  advances := touches.advances.ge

end AddPc

namespace Threads
variable {τ : Type v} {ι : Type u} [DecidableEq τ] [DecidableEq ι] {s : Threads τ ι}

/-- A call has returned: the task is in time. -/
structure Returned (k : Clock ι) (x : ι) (call : Call) (returned : Nat) : Prop where
  soon : call.began ≤ call.read + 1
  began : call.began ≤ returned
  read : call.read ≤ returned
  due : call.Accepted → k.Due x call.due

structure Inv (s : Threads τ ι) : Prop where
  synced : s.clock.Synced
  once : ∀ x, s.clock.Once x
  here : ∀ t, (s.threads t).At s.clock
  adding : Exclusive (fun x => decide (s.Adding x)) fun t => (s.threads t).task
  mutex : Exclusive (fun _ : Unit => s.assistantLocked) fun t => (s.threads t).locks
  returned : ∀ x call r, s.clock.calls x = some call → call.returned = some r → Returned s.clock x call r

omit [DecidableEq τ] [DecidableEq ι] in
theorem adding_congr {s s' : Threads τ ι} {x : ι} (same : s'.clock.calls x = s.clock.calls x) :
    decide (s'.Adding x) = decide (s.Adding x) := by
  refine decide_eq_decide.mpr ?_
  unfold Adding
  rw [same]

omit [DecidableEq τ] in
theorem Inv.apart (inv : Inv s) {t u : τ} {x y : ι} (mine : (s.threads t).task = some x) (other : u ≠ t)
    (theirs : (s.threads u).task = some y) : y ≠ x := by
  rintro rfl
  exact other (inv.adding.one u t y theirs mine)

/-- A thread moves, and nothing changes but the task it adds. -/
theorem Inv.touch (inv : Inv s) {t : τ} {x : ι} {k : Clock ι} {pc : AddPc ι} {locked : Bool}
    (apart : ∀ u y, u ≠ t → (s.threads u).task = some y → y ≠ x) (touches : AddPc.Touches s.clock k x)
    (once : k.Once x) (here : pc.At k)
    (adding : Exclusive (fun y => decide (Adding (⟨k, Function.update s.threads t pc, locked⟩ : Threads τ ι) y))
      fun u => (Function.update s.threads t pc u).task)
    (mutex : Exclusive (fun _ : Unit => locked) fun u => (Function.update s.threads t pc u).locks)
    (returned : ∀ call r, k.calls x = some call → call.returned = some r → Returned k x call r) :
    Inv ⟨k, Function.update s.threads t pc, locked⟩ where
  synced := touches.synced inv.synced
  once y := by
    by_cases same : y = x
    · exact same ▸ once
    · exact (inv.once y).keeps (touches.others y same)
  here u := by
    by_cases same : u = t
    · subst same
      simpa using here
    · simp only [Function.update_of_ne same]
      exact (inv.here u).frame (fun y theirs => touches.frame (apart u y same theirs)) fun _ =>
        touches.assistantAdvances
  adding := adding
  mutex := mutex
  returned y call r called back := by
    by_cases same : y = x
    · subst same
      exact returned call r called back
    · rw [(touches.others y same).calls] at called
      obtain ⟨soon, began, read, inTime⟩ := inv.returned y call r called back
      exact ⟨soon, began, read, fun accepted => (inTime accepted).keeps (touches.others y same)⟩

omit [DecidableEq τ] in
theorem returned_of_calling {k : Clock ι} {x : ι} {call : Call} (calling : AddPc.Calling k x call) {call' : Call}
    {r : Nat} (called : k.calls x = some call') (returned : call'.returned = some r) : Returned k x call' r := by
  rw [calling.called] at called
  cases called
  rw [calling.going] at returned
  cases returned

/-- A thread moves on with the task it adds. -/
theorem Inv.moves (inv : Inv s) {t : τ} {x : ι} {k : Clock ι} {pc : AddPc ι} {locked : Bool} {call : Call}
    (own : (s.threads t).task = some x) (own' : pc.task = some x) (touches : AddPc.Touches s.clock k x)
    (calling : AddPc.Calling k x call) (here : pc.At k)
    (mutex : Exclusive (fun _ : Unit => locked) fun u => (Function.update s.threads t pc u).locks) :
    Inv ⟨k, Function.update s.threads t pc, locked⟩ := by
  refine inv.touch (fun u y other theirs => inv.apart own other theirs) touches
    ⟨none, calling.absent, fun somewhere => absurd rfl somewhere⟩ here ?_ mutex
    fun call' r called returned => returned_of_calling calling called returned
  refine inv.adding.keep (i := t) (k := x) ?_ (fun y different => ?_) ?_ fun u different => ?_
  · rw [inv.adding.set t x own]
    exact decide_eq_true ⟨call, calling.called, calling.going⟩
  · exact adding_congr (touches.others y different).calls
  · simp only [Function.update_self, own, own']
  · simp only [Function.update_of_ne different]

/-- A thread puts its task into a bucket and returns. -/
theorem Inv.inserts (inv : Inv s) {t : τ} {x : ι} {place : Place} {locked : Bool} {call : Call}
    (own : (s.threads t).task = some x) (read : AddPc.Read s.clock x call)
    (due : call.Accepted → Clock.Due { s.clock with wheel := s.clock.wheel.insert place x } x call.due)
    (mutex : Exclusive (fun _ : Unit => locked) fun u => (Function.update s.threads t AddPc.idle u).locks) :
    Inv ⟨Threads.insert s.clock x place, Function.update s.threads t .idle, locked⟩ := by
  have touches : AddPc.Touches s.clock (Threads.insert s.clock x place) x := by
    refine ⟨rfl, rfl, rfl, rfl, rfl, rfl, rfl, fun y different => ?_⟩
    refine ⟨rfl, rfl, rfl, ?_, rfl, fun p placed => placed.insert_other place (Ne.symm different)⟩
    simp [Threads.insert, different]
  have after : (Threads.insert s.clock x place).calls x =
      some { call with returned := some s.clock.wheel.tickCount } := by
    simp [Threads.insert, read.called]
  have once : (Threads.insert s.clock x place).Once x := by
    refine ⟨some place, read.absent.insert place, fun _ => ⟨read.waits, ?_⟩⟩
    rw [after]
    exact Option.some_ne_none _
  refine inv.touch (fun u y other theirs => inv.apart own other theirs) touches once trivial ?_ mutex ?_
  · refine inv.adding.release (i := t) (k := x) own (fun y different => ?_) ?_ fun u different => ?_
    · exact adding_congr (touches.others y different).calls
    · simp only [Function.update_self, AddPc.task]
    · simp only [Function.update_of_ne different]
  · intro call' r called returned
    rw [after] at called
    cases called
    cases returned
    exact ⟨read.soon, read.began, read.read.trans inv.synced.advances_le, due⟩

/-- A step that leaves the mutex alone. -/
theorem Inv.mutex_keeps (inv : Inv s) {t : τ} {pc : AddPc ι} (same : pc.locks = (s.threads t).locks) :
    Exclusive (fun _ : Unit => s.assistantLocked) fun u => (Function.update s.threads t pc u).locks :=
  inv.mutex.goes (fun _ => rfl) same

theorem Inv.readIndex (inv : Inv s) {t : τ} {x : ι} (atPc : s.threads t = .readIndex x) :
    Inv ({ s with clock := Threads.readIndex s.clock x }.goto t (.start x s.clock.wheel.currentWorkWheelIndex)) := by
  have here := inv.here t
  rw [atPc] at here
  obtain ⟨call, calling⟩ := here
  have touches : AddPc.Touches s.clock (Threads.readIndex s.clock x) x := by
    refine ⟨rfl, rfl, rfl, rfl, rfl, rfl, rfl, fun y different => ⟨rfl, rfl, rfl, ?_, rfl, fun _ => id⟩⟩
    simp [Threads.readIndex, different]
  have calling' : AddPc.Calling (Threads.readIndex s.clock x) x { call with read := s.clock.advances } := by
    refine ⟨?_, calling.going, calling.waits, calling.absent, calling.duration, calling.began⟩
    simp [Threads.readIndex, calling.called]
  refine inv.moves (by rw [atPc]; rfl) rfl touches calling' ?_ (inv.mutex_keeps (by rw [atPc]; rfl))
  exact ⟨_, ⟨calling', calling.began.trans inv.synced.tickCount_le, le_rfl⟩, inv.synced.1⟩

theorem Inv.start (inv : Inv s) {t : τ} {x : ι} {index : Nat} (atPc : s.threads t = .start x index) :
    Inv (s.start t x index) := by
  have here := inv.here t
  rw [atPc] at here
  obtain ⟨call, read, same⟩ := here
  have own : (s.threads t).task = some x := by rw [atPc]; rfl
  have free : (s.threads t).locks = none := by rw [atPc]; rfl
  have bound := read.read
  have due : call.due = call.read + ticks (s.clock.wheel.tasks x).nextFireDurationMs := by
    rw [read.duration]
    rfl
  unfold Threads.start
  simp only
  split
  · rename_i far
    have slot : getWorkWheelIndex (index + ticks (s.clock.wheel.tasks x).nextFireDurationMs) =
        call.due % workWheelSize := by
      rw [getWorkWheelIndex_eq, same, due, Nat.mod_add_mod]
    rw [slot]
    have touches : AddPc.Touches s.clock (setRemainder (startWheel s.clock) x (call.due % workWheelSize)) x := by
      refine ⟨rfl, rfl, rfl, rfl, rfl, rfl, rfl, fun y different => ⟨rfl, rfl, rfl, rfl, ?_, fun _ => id⟩⟩
      simp [setRemainder, startWheel, setTask, different]
    have later : AddPc.Far (setRemainder (startWheel s.clock) x (call.due % workWheelSize)) x call
        ((index + ticks (s.clock.wheel.tasks x).nextFireDurationMs) / workWheelSize) := by
      refine ⟨⟨⟨read.called, read.going, read.waits, read.absent, ?_, read.began⟩, read.soon, read.read⟩, ?_, ?_, ?_⟩
      · simpa [setRemainder, startWheel, setTask] using read.duration
      · rw [due, same]
        unfold workWheelSize
        omega
      · exact (Nat.one_le_div_iff (by decide)).mpr far
      · simp [setRemainder, setTask]
    split
    · rename_i one
      exact inv.moves own rfl touches later.toCalling ⟨call, later, one, rfl⟩ (inv.mutex_keeps free.symm)
    · exact inv.moves own rfl touches later.toCalling ⟨call, later⟩ (inv.mutex_keeps free.symm)
  · rename_i near
    have touches : AddPc.Touches s.clock (startWheel s.clock) x :=
      ⟨rfl, rfl, rfl, rfl, rfl, rfl, rfl, fun y _ => ⟨rfl, rfl, rfl, rfl, rfl, fun _ => id⟩⟩
    have calling : AddPc.Calling (startWheel s.clock) x call :=
      ⟨read.called, read.going, read.waits, read.absent, read.duration, read.began⟩
    refine inv.moves own rfl touches calling ⟨call, ⟨calling, read.soon, read.read⟩, ?_, ?_⟩ (inv.mutex_keeps free.symm)
    · rw [due]
      unfold workWheelSize at *
      omega
    · rw [due]
      show _ < s.clock.advances + workWheelSize
      unfold workWheelSize at *
      omega

theorem Inv.compare (inv : Inv s) {t : τ} {x : ι} {index assistantTicks : Nat}
    (atPc : s.threads t = .compare x index assistantTicks) :
    (index < s.clock.wheel.currentWorkWheelIndex → Inv (s.goto t (.insertWork x index))) ∧
      Inv (s.goto t (.readAssistant x assistantTicks)) := by
  have here := inv.here t
  rw [atPc] at here
  obtain ⟨call, far, one, same⟩ := here
  have own : (s.threads t).task = some x := by rw [atPc]; rfl
  have free : (s.threads t).locks = none := by rw [atPc]; rfl
  have touches := AddPc.Touches.refl s.clock x
  refine ⟨fun behind => ?_, ?_⟩
  · refine inv.moves own rfl touches far.toCalling ⟨call, far.toRead, same, ?_⟩ (inv.mutex_keeps free.symm)
    -- the slot is behind the index, which therefore passes it in the revolution that follows
    have revolution := far.revolution
    have read := far.read
    rw [inv.synced.1] at behind
    unfold workWheelSize at *
    omega
  · exact inv.moves own rfl touches far.toCalling ⟨call, far⟩ (inv.mutex_keeps free.symm)

theorem Inv.insertWork (inv : Inv s) {t : τ} {x : ι} {index : Nat} (atPc : s.threads t = .insertWork x index)
    (onTime : ∀ call, s.clock.calls x = some call → call.Accepted → s.clock.wheel.tickCount ≤ call.due) :
    Inv ({ s with clock := Threads.insert s.clock x (.work index) }.goto t .idle) := by
  have here := inv.here t
  rw [atPc] at here
  obtain ⟨call, read, rfl, near⟩ := here
  have free : (s.threads t).locks = none := by rw [atPc]; rfl
  refine inv.inserts (by rw [atPc]; rfl) read (fun accepted => ?_) (inv.mutex_keeps free.symm)
  have count := inv.synced.advances_le
  exact Clock.due_insertWork read.absent read.waits (onTime call read.called accepted) (by omega)

theorem Inv.readAssistant (inv : Inv s) {t : τ} {x : ι} {assistantTicks : Nat}
    (atPc : s.threads t = .readAssistant x assistantTicks) (unlocked : s.assistantLocked = false) :
    Inv ({ s with assistantLocked := true }.goto t (.insertAssistant x
      (getAssistantWheelIndex (s.clock.wheel.currentAssistantWheelIndex + assistantTicks)) assistantTicks)) := by
  have here := inv.here t
  rw [atPc] at here
  obtain ⟨call, far⟩ := here
  refine inv.moves (by rw [atPc]; rfl) rfl (.refl s.clock x) far.toCalling ⟨call, far, ?_⟩ ?_
  · rw [getAssistantWheelIndex_eq, inv.synced.2.1, Nat.mod_add_mod]
  · refine inv.mutex.acquire (i := t) (k := ()) unlocked rfl (fun _ different => absurd rfl different) ?_
      fun u other => ?_
    · simp [AddPc.locks]
    · simp only [Function.update_of_ne other]

theorem Inv.insertAssistant (inv : Inv s) {t : τ} {x : ι} {index assistantTicks : Nat}
    (atPc : s.threads t = .insertAssistant x index assistantTicks)
    (onTime : ∀ call, s.clock.calls x = some call → call.Accepted →
      s.clock.assistantAdvances = call.read / workWheelSize ∧
        ¬ (assistantTicks = assistantWheelSize ∧ s.clock.pc = .cascade)) :
    Inv ({ s with clock := Threads.insert s.clock x (.assistant index), assistantLocked := false }.goto t .idle) := by
  have here := inv.here t
  rw [atPc] at here
  obtain ⟨call, far, rfl⟩ := here
  refine inv.inserts (by rw [atPc]; rfl) far.toRead (fun accepted => ?_) ?_
  · obtain ⟨revolution, notYet⟩ := onTime call far.called accepted
    obtain ⟨positive, bound⟩ := accepted.ticks
    have due := far.revolution
    have later := far.later
    have most : assistantTicks ≤ assistantWheelSize := by
      unfold Call.due at due
      unfold workWheelSize assistantWheelSize at *
      omega
    rw [revolution, ← due]
    obtain ⟨-, -, phase⟩ := inv.synced
    refine Clock.due_insertAssistant far.absent far.waits far.remainder ?_ ?_
    · cases atTick : s.clock.pc <;> rw [atTick] at phase <;> simp only at phase <;> omega
    · cases atTick : s.clock.pc with
      | tick | advanceWork | advanceAssistant =>
        rw [atTick] at phase
        simp only at phase
        omega
      | cascade =>
        rw [atTick] at phase
        simp only at phase
        have fewer : assistantTicks ≠ assistantWheelSize := fun all => notYet ⟨all, atTick⟩
        omega
  · refine inv.mutex.release (i := t) (k := ()) (by rw [atPc]; rfl) (fun _ different => absurd rfl different) ?_
      fun u other => ?_
    · simp [AddPc.locks]
    · simp only [Function.update_of_ne other]

theorem Inv.add (inv : Inv s) {s' : Threads τ ι} {t : τ} (onTime : s.OnTime (.add t)) (step : s.add t = some s') :
    Inv s' := by
  unfold OnTime at onTime
  unfold Threads.add at step
  split at step
  · cases step
  · rename_i x atPc
    cases step
    exact inv.readIndex atPc
  · rename_i x index atPc
    split at step
    · cases step
      exact inv.start atPc
    · cases step
  · rename_i x index assistantTicks atPc
    split at step
    · rename_i behind
      cases step
      exact (inv.compare atPc).1 behind
    · cases step
      exact (inv.compare atPc).2
  · rename_i x index atPc
    cases step
    simp only [atPc] at onTime
    exact inv.insertWork atPc onTime
  · rename_i x assistantTicks atPc
    split at step
    · cases step
    · rename_i unlocked
      cases step
      exact inv.readAssistant atPc (by simpa using unlocked)
  · rename_i x index assistantTicks atPc
    cases step
    simp only [atPc] at onTime
    exact inv.insertAssistant atPc onTime

omit [DecidableEq τ] in
/-- A step of the wheel's thread. -/
theorem Inv.ticks (inv : Inv s) {k : Clock ι} (synced : k.Synced) (once : ∀ x, k.Once x)
    (calls : k.calls = s.clock.calls) (frame : ∀ x, AddPc.Frame s.clock k x)
    (assistant : s.assistantLocked = true → k.assistantAdvances = s.clock.assistantAdvances)
    (due : ∀ x n, s.clock.Due x n → k.Due x n) : Inv { s with clock := k } where
  synced := synced
  once := once
  here t := (inv.here t).frame (fun x _ => frame x) fun locks => assistant (inv.mutex.set t () locks)
  adding := inv.adding.same (fun x => adding_congr (congrFun calls x)) fun _ => rfl
  mutex := inv.mutex
  returned x call r called returned := by
    rw [calls] at called
    obtain ⟨soon, began, read, inTime⟩ := inv.returned x call r called returned
    exact ⟨soon, began, read, fun accepted => due x _ (inTime accepted)⟩

omit [DecidableEq τ] in
theorem Inv.tickFunc (inv : Inv s) {s' : Threads τ ι} (step : s.tickFunc = some s') : Inv s' := by
  unfold Threads.tickFunc at step
  split at step
  · rename_i atTick
    split at step
    · cases step
      refine inv.ticks (inv.synced.tick atTick) (fun x => (inv.once x).tick) rfl (fun x => ?_) (fun _ => rfl)
        fun x n inTime => inTime.tick inv.synced atTick
      refine ⟨rfl, fun waits absent => ?_, fun absent => ?_, rfl, Nat.le_succ _, le_rfl⟩
      · have posted := absent.tick.2
        rw [if_neg (by simp)] at posted
        exact (Clock.tick_fired posted).trans waits
      · have after := absent.tick.1
        rw [if_neg (by simp)] at after
        exact after
    · cases step
  · rename_i atAdvance
    cases step
    refine inv.ticks (inv.synced.advanceWork atAdvance) (fun x => (inv.once x).keeps (s.clock.keeps_advanceWork x)) rfl
      (fun x => ⟨rfl, fun waits _ => waits, id, rfl, le_rfl, Nat.le_succ _⟩) (fun _ => rfl)
      fun x n inTime => inTime.keeps (s.clock.keeps_advanceWork x)
  · rename_i atAdvance
    split at step
    · cases step
    · rename_i unlocked
      cases step
      refine inv.ticks (inv.synced.advanceAssistant atAdvance)
        (fun x => (inv.once x).keeps (s.clock.keeps_advanceAssistant x)) rfl
        (fun x => ⟨rfl, fun waits _ => waits, id, rfl, le_rfl, le_rfl⟩) (fun locked => absurd locked unlocked)
        fun x n inTime => inTime.keeps (s.clock.keeps_advanceAssistant x)
  · rename_i atCascade
    cases step
    refine inv.ticks (inv.synced.cascade atCascade) (fun x => (inv.once x).cascade) rfl (fun x => ?_) (fun _ => rfl)
      fun x n inTime => inTime.cascade inv.synced atCascade
    refine ⟨rfl, fun waits _ => waits, fun absent => ?_, ?_, ?_, le_rfl⟩
    · have after := absent.cascade
      rw [if_neg (by simp)] at after
      exact after
    · rw [Clock.cascade, cascade_eq]
    · rw [Clock.cascade, cascade_eq]

theorem Inv.call (inv : Inv s) {t : τ} {x : ι} (idle : s.threads t = .idle) (adds : s.clock.Adds x)
    (free : ¬ s.Adding x) (nextFireDurationMs : Nat) : Inv (s.call t x nextFireDurationMs) := by
  have absent := (inv.once x).absent adds
  have apart : ∀ u y, u ≠ t → (s.threads u).task = some y → y ≠ x := by
    rintro u y - theirs rfl
    exact free (of_decide_eq_true (inv.adding.set u y theirs))
  have touches : AddPc.Touches s.clock (s.call t x nextFireDurationMs).clock x := by
    refine ⟨rfl, rfl, rfl, rfl, rfl, rfl, rfl, fun y different => ⟨rfl, rfl, ?_, ?_, ?_, fun _ => id⟩⟩
    · simp [Threads.call, goto, different]
    · simp [Threads.call, goto, different]
    · simp [Threads.call, goto, setTask, different]
  have calling : AddPc.Calling (s.call t x nextFireDurationMs).clock x
      ⟨s.clock.wheel.tickCount, s.clock.advances, nextFireDurationMs, none⟩ := by
    refine ⟨?_, rfl, ?_, absent, ?_, le_rfl⟩
    · simp [Threads.call, goto]
    · simp [Threads.call, goto]
    · simp [Threads.call, goto, setTask]
  refine inv.touch apart touches ⟨none, absent, fun somewhere => absurd rfl somewhere⟩ ⟨_, calling⟩ ?_
    (inv.mutex_keeps (by rw [idle]; rfl)) fun call' r called returned => returned_of_calling calling called returned
  refine inv.adding.acquire (i := t) (k := x) (decide_eq_false free) (decide_eq_true ⟨_, calling.called, rfl⟩)
    (fun y different => adding_congr (touches.others y different).calls) ?_ fun u different => ?_
  · simp [AddPc.task]
  · simp only [Function.update_of_ne different]

theorem step_inv (tasks : ι → TimerTask) {s' : Threads τ ι} {e : Event τ ι} (inv : Inv s) (onTime : s.OnTime e)
    (step : (machine τ tasks).step s e = some s') : Inv s' := by
  cases e with
  | call t x nextFireDurationMs =>
    simp only [machine] at step
    split at step
    · rename_i idle
      obtain ⟨⟨adds, free⟩, ⟨⟩⟩ := Option.ite_none_right_eq_some.mp step
      exact inv.call idle adds free nextFireDurationMs
    · cases step
  | add t => exact inv.add onTime step
  | tickFunc => exact inv.tickFunc step
  | expire x =>
    obtain ⟨free, ⟨⟩⟩ := Option.ite_none_left_eq_some.mp step
    refine ⟨inv.synced, fun y => (inv.once y).expire x, fun t => ?_, inv.adding, inv.mutex,
      fun y call r called back => ?_⟩
    · refine (inv.here t).frame (fun y theirs => ?_) fun _ => rfl
      have different : y ≠ x := by
        rintro rfl
        exact free (of_decide_eq_true (inv.adding.set t y theirs))
      refine ⟨rfl, fun waits _ => waits, id, ?_, le_rfl, le_rfl⟩
      simp [Clock.expire, setTask, different]
    · obtain ⟨soon, began, read, inTime⟩ := inv.returned y call r called back
      exact ⟨soon, began, read, fun accepted => (inTime accepted).expire x⟩
  | shutdown =>
    cases step
    have keeps : ∀ x, s.clock.Keeps { s.clock with wheel := { s.clock.wheel with running := false } } x :=
      fun x => ⟨rfl, rfl, rfl, rfl, rfl, fun _ => id⟩
    exact inv.ticks inv.synced (fun x => (inv.once x).keeps (keeps x)) rfl
      (fun x => ⟨rfl, fun waits _ => waits, id, rfl, le_rfl, le_rfl⟩) (fun _ => rfl)
      fun x n inTime => inTime.keeps (keeps x)

theorem inv_init (tasks : ι → TimerTask) : Inv (machine τ tasks).init where
  synced := Clock.synced_new tasks
  once _ := ⟨none, fun _ => rfl, fun somewhere => absurd rfl somewhere⟩
  here _ := trivial
  adding := ⟨fun _ _ adding => (by cases adding), fun _ _ _ adding => (by cases adding)⟩
  mutex := ⟨fun _ _ locks => (by cases locks), fun _ _ _ locks => (by cases locks)⟩
  returned _ _ _ called := by cases called

/-- In every run whose steps are on time: since a call of `AddTask` began, after `began` ticks, the callback of the
task has been posted once at most, not earlier than one tick before and not later than the ticks during the call
and one after the tick at which it is due; and when that is over it has been posted if the task is alive. -/
theorem posted_in_time {tasks : ι → TimerTask} (reach : (machine τ tasks).ReachWhen OnTime s) {x : ι} {call : Call}
    {returned : Nat} (added : s.clock.calls x = some call) (back : call.returned = some returned)
    (accepted : call.Accepted) :
    (s.clock.fired x = [] ∨ ∃ n, s.clock.fired x = [n] ∧ call.began + ticks call.nextFireDurationMs ≤ n + 1 ∧
      n ≤ call.began + ticks call.nextFireDurationMs + (returned - call.began) + 1) ∧
    ((s.clock.wheel.tasks x).alive →
      call.began + ticks call.nextFireDurationMs + (returned - call.began) + 1 < s.clock.wheel.tickCount →
      s.clock.fired x ≠ []) := by
  have inv : Inv s := reach.invariant (inv_init tasks) fun _ _ _ inv onTime step => step_inv tasks inv onTime step
  obtain ⟨soon, began, read, inTime⟩ := inv.returned x call returned added back
  have due : call.due = call.read + ticks call.nextFireDurationMs := rfl
  rcases inTime accepted with ⟨fired, -, -⟩ | ⟨waits, there⟩
  · refine ⟨.inr ⟨call.due, fired, by omega, by omega⟩, fun _ _ => ?_⟩
    rw [fired]
    exact List.cons_ne_nil _ _
  · refine ⟨.inl waits, fun alive past => ?_⟩
    have notYet := (there alive).after inv.synced
    omega

/-- The task is put into its bucket before the tick at which it is due. -/
def addedInTime : List (Event Unit Unit) :=
  [.call () () 1, .add (), .add (), .tickFunc, .tickFunc, .add (), .tickFunc, .tickFunc, .tickFunc, .tickFunc,
    .tickFunc, .tickFunc, .tickFunc]

theorem addedInTime_meets : (machine Unit fun _ => ⟨0, 0, true⟩).Meets OnTime (machine Unit fun _ => ⟨0, 0, true⟩).init
    addedInTime := by
  refine ⟨trivial, trivial, trivial, trivial, trivial, fun call called _ => ?_, trivial, trivial, trivial, trivial,
    trivial, trivial, trivial, trivial⟩
  obtain rfl : (⟨0, 0, 1, none⟩ : Call) = call := Option.some.inj called
  decide

theorem addedInTime_posted :
    let s := (machine Unit fun _ => ⟨0, 0, true⟩).stateAt addedInTime 13
    s.clock.wheel.tickCount = 5 ∧ s.clock.calls () = some ⟨0, 0, 1, some 1⟩ ∧ s.clock.fired () ≠ [] := by
  have reach := Machine.stateAt_reachWhen addedInTime addedInTime_meets rfl
  exact ⟨rfl, rfl, (posted_in_time reach (x := ()) rfl rfl ⟨by decide, by decide⟩).2 rfl (by decide)⟩

/-- Two ticks are done after the work index was read and before the task is put into its bucket, the one it was due
at among them. -/
def addedLate : List (Event Unit Unit) :=
  [.call () () 1, .add (), .add (), .tickFunc, .tickFunc, .tickFunc, .tickFunc, .add (), .tickFunc, .tickFunc,
    .tickFunc, .tickFunc, .tickFunc, .tickFunc, .tickFunc, .tickFunc]

/-- The task was to be posted by the tick `0 + 1 + 2 + 1`; six ticks are done, and it waits for the next revolution. -/
theorem addedLate_waits :
    ∃ s : Threads Unit Unit, (machine Unit fun _ => ⟨0, 0, true⟩).Reach s ∧
      s.clock.calls () = some ⟨0, 0, 1, some 2⟩ ∧ (⟨0, 0, 1, some 2⟩ : Call).Accepted ∧
      (s.clock.wheel.tasks ()).alive = true ∧ 0 + ticks 1 + (2 - 0) + 1 < s.clock.wheel.tickCount ∧
      s.clock.fired () = [] :=
  ⟨_, Machine.stateAt_reach addedLate rfl, rfl, ⟨by decide, by decide⟩, rfl, by decide, rfl⟩

end Threads

end CyberRT.TimingWheel

import CyberRT.Croutine.DataWakeup
import Mathlib.Data.Fintype.Basic

namespace CyberRT.ReaderStart
open Concur DataWakeup
universe u v w

/-- Where the thread stands that creates the reader: the constructor of its `DataVisitor`, then `CreateTask`. -/
inductive SetUpPc
  | addBuffer
  | addNotifier
  | dispatchTask
  | registerNotifyCallback
  | returned
  deriving DecidableEq

namespace SetUpPc

def next : SetUpPc → SetUpPc
  | .addBuffer => .addNotifier
  | .addNotifier => .dispatchTask
  | .dispatchTask => .registerNotifyCallback
  | .registerNotifyCallback | .returned => .returned

def bufferAdded (pc : SetUpPc) : Bool :=
  pc ≠ .addBuffer

def notifierAdded : SetUpPc → Bool
  | .addBuffer | .addNotifier => false
  | _ => true

def dispatched : SetUpPc → Bool
  | .registerNotifyCallback | .returned => true
  | _ => false

def callbackRegistered (pc : SetUpPc) : Bool :=
  pc = .returned

end SetUpPc

/-- Where a call of `DataNotifier::Notify` stands that has yet to call the notifier of the reader. -/
inductive LookupPc
  | findNotifier
  | readCallback
  deriving DecidableEq

/-- The task of a reader while it is created. A thread in `Dispatch` that has yet to call the notifier stands
before the first access of `NotifyProcessor`. -/
structure State (δ : Type u) (π : Type v) (T : Type w) where
  task : DataWakeup.State δ π T
  setUp : SetUpPc
  lookup : δ → Option LookupPc

inductive Event (δ : Type u) (π : Type v) (T : Type w)
  | setUp
  | dispatch (d : δ) (msg : T)
  | notify (d : δ)
  | process (p : π) (now : Nat)

variable {δ : Type u} {π : Type v} {T : Type w} [DecidableEq δ]

/-- Thread `d` leaves `Notify` without a call: it has found no notifier of the reader, or one without callback. -/
def State.missed (s : State δ π T) (d : δ) : State δ π T :=
  { s with task := s.task.dispatchGoto d none, lookup := Function.update s.lookup d none }

/-- `Dispatch` fills the buffer of the reader if it is in the list of the channel. -/
def State.filled (s : State δ π T) (d : δ) (msg : T) : State δ π T :=
  let visitor := s.task.visitor
  let buffer := if s.setUp.bufferAdded then visitor.buffer.fill msg else visitor.buffer
  { s with
    task := { s.task with visitor := { visitor with buffer := buffer } }.dispatchGoto d (some .readDataWait)
    lookup := Function.update s.lookup d (some .findNotifier) }

theorem missed_inv {s : State δ π T} (inv : Inv s.task) {d : δ}
    (covered : s.task.visitor.Newer →
      (s.task.dispatchGoto d none).Notifying ∨ s.task.routine.UpdatePending ∨ s.task.Fetching) :
    Inv (s.missed d).task where
  noticed := covered
  runs := inv.runs

variable [DecidableEq π]

def step (s : State δ π T) : Event δ π T → Option (State δ π T)
  | .setUp => if s.setUp = .returned then none else some { s with setUp := s.setUp.next }
  | .dispatch d msg =>
    match s.task.dispatchers d with
    | none => some (s.filled d msg)
    | some _ => none
  | .notify d =>
    match s.lookup d with
    | some .findNotifier =>
      some (if s.setUp.notifierAdded then { s with lookup := Function.update s.lookup d (some .readCallback) }
        else s.missed d)
    | some .readCallback =>
      some (if s.setUp.callbackRegistered then { s with lookup := Function.update s.lookup d none } else s.missed d)
    | none => (DataWakeup.step s.task (.notify d)).map fun task => { s with task := task }
  | .process p now =>
    if s.setUp.dispatched then (DataWakeup.step s.task (.process p now)).map fun task => { s with task := task }
    else none

/-- The reader is about to be created at time `now`; other readers of the channel have their buffers and
notifiers. -/
def machine (δ : Type u) (π : Type v) (T : Type w) [DecidableEq δ] [DecidableEq π] (queueSize now : Nat) :
    Machine (State δ π T) (Event δ π T) where
  init := ⟨(DataWakeup.machine δ π T queueSize now).init, .addBuffer, fun _ => none⟩
  step := step

/-- `CreateTask` and all calls of `Dispatch` have returned, and the message that came last lies unseen in the
buffer of a coroutine that sleeps. -/
def State.Stranded (s : State δ π T) : Prop :=
  s.setUp = .returned ∧ s.task.Returned ∧ s.task.visitor.Newer ∧ s.task.Suspended ∧
    s.task.routine.state = .dataWait ∧ ¬ s.task.routine.UpdatePending

/-- The step of thread `d` finds the notifier of the reader missing, or without a callback. -/
def State.Misses (s : State δ π T) (d : δ) : Prop :=
  (s.lookup d = some .findNotifier ∧ s.setUp.notifierAdded = false) ∨
    (s.lookup d = some .readCallback ∧ s.setUp.callbackRegistered = false)

/-- A call of `Dispatch` that finds no callback leaves nothing newer than the last message fetched, or somebody
else will look: another call that has yet to read the state or to set the flag, a processor that will see the
update pending, or the loop of the coroutine before it is suspended in `DATA_WAIT`. -/
def Covered (s : State δ π T) : Event δ π T → Prop
  | .notify d => s.Misses d → s.task.visitor.Newer →
      (s.task.dispatchGoto d none).Notifying ∨ s.task.routine.UpdatePending ∨ s.task.Fetching
  | _ => True

instance [Fintype δ] (s : State δ π T) (e : Event δ π T) : Decidable (Covered s e) :=
  match e with
  | .notify d =>
    have : Decidable (s.task.dispatchGoto d none).Notifying := inferInstanceAs (Decidable (∃ _, _ ∨ _))
    have : Decidable s.task.Fetching := inferInstanceAs (Decidable (_ ∨ _))
    have : Decidable (s.Misses d) := inferInstanceAs (Decidable (_ ∨ _))
    inferInstanceAs (Decidable (_ → _ → _))
  | .setUp | .dispatch .. | .process .. => inferInstanceAs (Decidable True)

theorem step_inv_start {s s' : State δ π T} {e : Event δ π T} (inv : Inv s.task) (covered : Covered s e)
    (stepped : step s e = some s') : Inv s'.task := by
  cases e with
  | setUp =>
    simp only [step] at stepped
    split at stepped
    · cases stepped
    · cases stepped
      exact inv
  | dispatch d msg =>
    simp only [step] at stepped
    split at stepped
    · cases stepped
      exact step_dispatch inv d _
    · cases stepped
  | notify d =>
    simp only [step] at stepped
    split at stepped
    · rename_i finds
      cases stepped
      split
      · exact inv
      · rename_i missing
        exact missed_inv inv (covered (.inl ⟨finds, Bool.eq_false_iff.mpr missing⟩))
    · rename_i reads
      cases stepped
      split
      · exact inv
      · rename_i missing
        exact missed_inv inv (covered (.inr ⟨reads, Bool.eq_false_iff.mpr missing⟩))
    · obtain ⟨task, moved, rfl⟩ := Option.map_eq_some_iff.mp stepped
      exact DataWakeup.step_inv inv moved
  | process p now =>
    simp only [step] at stepped
    split at stepped
    · obtain ⟨task, moved, rfl⟩ := Option.map_eq_some_iff.mp stepped
      exact DataWakeup.step_inv inv moved
    · cases stepped

/-- No message is stranded while a reader starts, in a run in which every call that finds no callback is
covered. -/
theorem not_stranded {queueSize now : Nat} {s : State δ π T}
    (reach : (machine δ π T queueSize now).ReachWhen Covered s) : ¬ s.Stranded := by
  have inv : Inv s.task := reach.invariant (P := fun s => Inv s.task) (DataWakeup.inv_init queueSize now)
    fun _ _ _ => step_inv_start
  rintro ⟨-, returned, newer, suspended, waits, settled⟩
  exact inv.no_loss ⟨returned, newer, suspended, waits, settled⟩

/-- One message comes before there is a notifier, and is found by the first fetch; the next comes when the
coroutine waits. -/
def earlyMessage : List (Event Bool Unit String) :=
  [.setUp, .dispatch true "first", .notify true, .setUp, .setUp, .process () 0, .process () 0, .process () 0,
    .process () 0, .process () 0, .process () 0, .setUp, .process () 0, .process () 0, .process () 0, .process () 0,
    .process () 0, .process () 0, .process () 0, .process () 0, .process () 0, .process () 0,
    .dispatch false "second", .notify false, .notify false, .notify false, .notify false, .notify false]

theorem earlyMessage_not_stranded :
    let s := (machine Bool Unit String 1 0).stateAt earlyMessage 28
    ¬ s.Stranded ∧ s.setUp = .returned ∧ s.task.visitor.Newer ∧ s.task.routine.state = .dataWait ∧
      s.task.routine.UpdatePending := by
  have reach : (machine Bool Unit String 1 0).ReachWhen Covered
      ((machine Bool Unit String 1 0).stateAt earlyMessage 28) :=
    Machine.stateAt_reachWhen earlyMessage (by decide) rfl
  exact ⟨not_stranded reach, by decide, by decide, by decide, by decide⟩

/-- The coroutine has looked in vain and waits before its callback is registered. -/
def lateCallback : List (Event Unit Unit String) :=
  [.setUp, .setUp, .setUp, .process () 0, .process () 0, .process () 0, .process () 0, .process () 0, .process () 0,
    .process () 0, .dispatch () "hello", .notify (), .notify (), .setUp]

theorem lateCallback_stranded :
    let s := (machine Unit Unit String 1 0).stateAt lateCallback 14
    (machine Unit Unit String 1 0).Reach s ∧ s.Stranded := by
  refine ⟨Machine.stateAt_reach (M := machine Unit Unit String 1 0) lateCallback rfl,
    rfl, fun _ => rfl, ?_, ?_, rfl, ?_⟩
  · decide
  · exact fun _ => nofun
  · decide

end CyberRT.ReaderStart

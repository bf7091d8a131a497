import CyberRT.Base.BoundedQueueFifo
import CyberRT.Scheduler.NotifyProcessor
import CyberRT.Scheduler.Processor
import Mathlib.Data.Fintype.Basic
import Mathlib.Data.Sum.Basic

namespace CyberRT.TaskManager
open Concur
variable {α κ π T : Type}

/-- Where a caller of `Enqueue` stands: in the queue, or outside of any call when it is idle there; or in the
`NotifyTask` for a task coroutine, with those that follow. -/
inductive CallerPc (κ T : Type)
  | queue (l : BoundedQueue.Local T)
  | notify (c : κ) (pc : NotifyPc) (rest : List κ)

/-- Where the loop of a task coroutine stands. It is suspended at the start of the loop, where it is idle in
the queue; with a `Dequeue` that has failed it is about to set its state in `HangUp`. -/
inductive LoopPc (T : Type)
  | queue (l : BoundedQueue.Local T)
  | runTask
  | swapContext

/-- Any number of callers, of task coroutines and of processors. A processor that holds no coroutine is on its
way through the run queue. -/
structure State (α κ π T : Type) where
  queue : BoundedQueue T
  callers : α → CallerPc κ T
  routines : κ → CRoutine
  loops : κ → LoopPc T
  processors : π → Option (κ × Processor.Pc)

inductive Event (α κ π T : Type)
  | enqueue (a : α) (element : T)
  | caller (a : α) (spurious : Bool)
  | process (p : π) (c : κ) (now : Nat) (spurious : Bool)

/-- The next of the calls of `NotifyTask`. -/
def notifyFrom : List κ → CallerPc κ T
  | [] => .queue .idle
  | c :: rest => .notify c .readDataWait rest

section Step
variable [DecidableEq α] [DecidableEq κ] [DecidableEq π]

def State.callerGoto (s : State α κ π T) (a : α) (pc : CallerPc κ T) : State α κ π T :=
  { s with callers := Function.update s.callers a pc }

def State.loopGoto (s : State α κ π T) (c : κ) (pc : LoopPc T) : State α κ π T :=
  { s with loops := Function.update s.loops c pc }

def State.setRoutine (s : State α κ π T) (c : κ) (cr : CRoutine) : State α κ π T :=
  { s with routines := Function.update s.routines c cr }

def State.processorGoto (s : State α κ π T) (p : π) (pc : Option (κ × Processor.Pc)) : State α κ π T :=
  { s with processors := Function.update s.processors p pc }

/-- One access of `Enqueue`, which notifies the task coroutines whatever the queue has answered. -/
def callerStep (tasks : List κ) (s : State α κ π T) (a : α) (spurious : Bool) : Option (State α κ π T) :=
  match s.callers a with
  | .queue (.enqReturn _) => some (s.callerGoto a (notifyFrom tasks))
  | .queue inner => (BoundedQueue.act s.queue inner (.run spurious)).map fun (queue, next) =>
      { s with queue := queue }.callerGoto a (.queue next)
  | .notify _ .notify rest => some (s.callerGoto a (notifyFrom rest))
  | .notify c pc rest =>
    let (cr, pc) := pc.act (s.routines c)
    some ((s.setRoutine c cr).callerGoto a (.notify c pc rest))

/-- One access of the loop of a task coroutine, which runs on a processor. -/
def loopStep (s : State α κ π T) (c : κ) (spurious : Bool) : Option (State α κ π T) :=
  match s.loops c with
  | .queue .idle => some (s.loopGoto c (.queue .deqLoadHead))
  | .queue (.deqReturn none) => some ((s.setRoutine c ((s.routines c).setState .dataWait)).loopGoto c .swapContext)
  | .queue (.deqReturn (some _)) => some (s.loopGoto c .runTask)
  | .queue inner => (BoundedQueue.act s.queue inner (.run spurious)).map fun (queue, next) =>
      { s with queue := queue }.loopGoto c (.queue next)
  | .runTask => some (s.loopGoto c (.queue .idle))
  | .swapContext => some (s.loopGoto c (.queue .idle))

/-- Where a processor stands after an access: one that has released its coroutine, or failed to acquire it, goes
on with its run queue. -/
def holding (c : κ) : Processor.Pc → Option (κ × Processor.Pc)
  | .acquire => none
  | pc => some (c, pc)

def processStep (s : State α κ π T) (p : π) (c : κ) (now : Nat) (spurious : Bool) : Option (State α κ π T) :=
  match s.processors p with
  | none =>
    let (cr, pc) := Processor.Pc.acquire.act (s.routines c) now
    some ((s.setRoutine c cr).processorGoto p (holding c pc))
  | some (c, .running) =>
    (loopStep s c spurious).map fun s' => match s.loops c with
      | .swapContext => s'.processorGoto p (some (c, .release))
      | _ => s'
  | some (c, pc) =>
    let (cr, pc) := pc.act (s.routines c) now
    some ((s.setRoutine c cr).processorGoto p (holding c pc))

def step (tasks : List κ) (s : State α κ π T) : Event α κ π T → Option (State α κ π T)
  | .enqueue a element =>
    match s.callers a with
    | .queue .idle => some (s.callerGoto a (.queue (.enqLoadTail element)))
    | _ => none
  | .caller a spurious => callerStep tasks s a spurious
  | .process p c now spurious => processStep s p c now spurious

/-- The task coroutines `tasks` have been created. -/
def machine (α κ π T : Type) [DecidableEq α] [DecidableEq κ] [DecidableEq π] [Inhabited T] (size : Nat)
    (tasks : List κ) : Machine (State α κ π T) (Event α κ π T) where
  init := ⟨.init size, fun _ => .queue .idle, fun _ => .new 0, fun _ => .queue .idle, fun _ => none⟩
  step := step tasks

/-- Every way the machine can move. -/
inductive Effect (tasks : List κ) (s : State α κ π T) : Event α κ π T → State α κ π T → Prop
  | enqueue {a : α} (element) : s.callers a = .queue .idle →
      Effect tasks s (.enqueue a element) (s.callerGoto a (.queue (.enqLoadTail element)))
  | returned {a : α} {result spurious} : s.callers a = .queue (.enqReturn result) →
      Effect tasks s (.caller a spurious) (s.callerGoto a (notifyFrom tasks))
  | callerInside {a : α} {inner next : BoundedQueue.Local T} {queue spurious} : s.callers a = .queue inner →
      (∀ result, inner ≠ .enqReturn result) → BoundedQueue.act s.queue inner (.run spurious) = some (queue, next) →
      Effect tasks s (.caller a spurious) ({ s with queue := queue }.callerGoto a (.queue next))
  | notified {a : α} {c rest spurious} : s.callers a = .notify c .notify rest →
      Effect tasks s (.caller a spurious) (s.callerGoto a (notifyFrom rest))
  | notify {a : α} {c rest spurious} (pc : NotifyPc) : s.callers a = .notify c pc rest → pc ≠ .notify →
      Effect tasks s (.caller a spurious)
        ((s.setRoutine c (pc.act (s.routines c)).1).callerGoto a (.notify c (pc.act (s.routines c)).2 rest))
  | start {p : π} {c e} : s.processors p = some (c, .running) → s.loops c = .queue .idle →
      Effect tasks s e (s.loopGoto c (.queue .deqLoadHead))
  | hangUp {p : π} {c e} : s.processors p = some (c, .running) → s.loops c = .queue (.deqReturn none) →
      Effect tasks s e ((s.setRoutine c ((s.routines c).setState .dataWait)).loopGoto c .swapContext)
  | dequeued {p : π} {c e} (task) : s.processors p = some (c, .running) → s.loops c = .queue (.deqReturn (some task)) →
      Effect tasks s e (s.loopGoto c .runTask)
  | loopInside {p : π} {c e} {inner next : BoundedQueue.Local T} {queue spurious} :
      s.processors p = some (c, .running) → s.loops c = .queue inner → inner ≠ .idle →
      (∀ result, inner ≠ .deqReturn result) → BoundedQueue.act s.queue inner (.run spurious) = some (queue, next) →
      Effect tasks s e ({ s with queue := queue }.loopGoto c (.queue next))
  | ran {p : π} {c e} : s.processors p = some (c, .running) → s.loops c = .runTask →
      Effect tasks s e (s.loopGoto c (.queue .idle))
  | swapContext {p : π} {c e} : s.processors p = some (c, .running) → s.loops c = .swapContext →
      Effect tasks s e ((s.loopGoto c (.queue .idle)).processorGoto p (some (c, .release)))
  | access {p : π} {c e} (now) (pc : Processor.Pc) : pc ≠ .running →
      (s.processors p = none ∧ pc = .acquire ∨ s.processors p = some (c, pc)) →
      Effect tasks s e
        ((s.setRoutine c (pc.act (s.routines c) now).1).processorGoto p (holding c (pc.act (s.routines c) now).2))

theorem callerStep_effect {tasks : List κ} {s s' : State α κ π T} {a : α} {spurious : Bool}
    (step : callerStep tasks s a spurious = some s') : Effect tasks s (.caller a spurious) s' := by
  unfold callerStep at step
  split at step
  · rename_i result here
    cases step
    exact .returned here
  · rename_i inner notReturned here
    obtain ⟨⟨queue, next⟩, moved, same⟩ := Option.map_eq_some_iff.mp step
    cases same
    exact .callerInside here notReturned moved
  · rename_i c rest here
    cases step
    exact .notified here
  · rename_i c pc rest notNotify here
    cases step
    exact .notify pc here notNotify

theorem loopStep_effect {tasks : List κ} {s s' : State α κ π T} {p : π} {c d : κ} {now : Nat} {spurious : Bool}
    (running : s.processors p = some (c, .running))
    (step : processStep s p d now spurious = some s') : Effect tasks s (.process p d now spurious) s' := by
  simp only [processStep, running, Option.map_eq_some_iff] at step
  obtain ⟨next, moved, rfl⟩ := step
  unfold loopStep at moved
  split at moved
  · rename_i here
    cases moved
    simp only [here]
    exact .start running here
  · rename_i here
    cases moved
    simp only [here]
    exact .hangUp running here
  · rename_i task here
    cases moved
    simp only [here]
    exact .dequeued task running here
  · rename_i inner notIdle notEmpty notTaken here
    obtain ⟨⟨queue, after⟩, access, rfl⟩ := Option.map_eq_some_iff.mp moved
    simp only [here]
    refine .loopInside running here notIdle (fun result same => ?_) access
    cases result with
    | none => exact notEmpty same
    | some task => exact notTaken task same
  · rename_i here
    cases moved
    simp only [here]
    exact .ran running here
  · rename_i here
    cases moved
    simp only [here]
    exact .swapContext running here

theorem step_effect {tasks : List κ} {s s' : State α κ π T} {e : Event α κ π T}
    (moved : step tasks s e = some s') : Effect tasks s e s' := by
  cases e with
  | enqueue a element =>
    simp only [step] at moved
    split at moved
    · rename_i here
      cases moved
      exact .enqueue element here
    · cases moved
  | caller a spurious => exact callerStep_effect moved
  | process p c now spurious =>
    have processed : processStep s p c now spurious = some s' := moved
    by_cases running : ∃ d, s.processors p = some (d, .running)
    · obtain ⟨d, running⟩ := running
      exact loopStep_effect running processed
    · unfold processStep at processed
      split at processed
      · rename_i free
        cases processed
        exact .access now .acquire nofun (.inl ⟨free, rfl⟩)
      · rename_i d here
        exact absurd ⟨d, here⟩ running
      · rename_i d pc notRunning here
        cases processed
        exact .access now pc notRunning (.inr here)

end Step

/-- The committed tasks in the queue. -/
def State.backlog (s : State α κ π T) : Nat :=
  s.queue.commit - s.queue.head - 1

/-- No `Enqueue` is in progress and the queue holds a task, which no coroutine will see: all are suspended in
`DATA_WAIT` with no update pending. -/
def State.Stranded (s : State α κ π T) : Prop :=
  (∀ a, s.callers a = .queue .idle) ∧ 0 < s.backlog ∧
    ∀ c, (∀ p, s.processors p ≠ some (c, .running)) ∧ (s.routines c).state = .dataWait ∧
      ¬ (s.routines c).UpdatePending

/-- Coroutine `c` will try `Dequeue` before it is suspended in `DATA_WAIT`. -/
def State.Looks (s : State α κ π T) (c : κ) : Prop :=
  match s.loops c with
  | .queue .idle | .swapContext => (s.routines c).state ≠ .dataWait
  | .queue (.deqReturn none) => False
  | _ => True

/-- Caller `a` has put its task in the queue and has yet to read a state that it will act on, or to set the flag
for one that it has read. -/
def State.Notifies (s : State α κ π T) (a : α) : Prop :=
  match s.callers a with
  | .queue (.enqReturn _) => True
  | .notify _ .readDataWait _ | .notify _ .setUpdateFlag _ => True
  | .notify _ _ rest => rest ≠ []
  | _ => False

/-- Somebody will see to the tasks in the queue. -/
def State.Attended (s : State α κ π T) : Prop :=
  (∃ a, s.Notifies a) ∨ ∃ c, (s.routines c).UpdatePending ∨ s.Looks c

/-- Caller `a` is about to read the last state that it will act on, and will not act, or there is none to read. -/
def State.LastLook (tasks : List κ) (s : State α κ π T) (a : α) : Prop :=
  match s.callers a with
  | .queue (.enqReturn _) => tasks = []
  | .notify c .readDataWait [] => (s.routines c).state ≠ .dataWait
  | _ => False

/-- An `Enqueue` that finds no coroutine waiting at its last look leaves the queue empty, or to somebody else. -/
def InTime (tasks : List κ) (s : State α κ π T) : Event α κ π T → Prop
  | .caller a _ => s.LastLook tasks a → 0 < s.backlog →
      (∃ b, b ≠ a ∧ s.Notifies b) ∨ ∃ c, (s.routines c).UpdatePending ∨ s.Looks c
  | _ => True

instance (s : State α κ π T) (c : κ) : Decidable (s.Looks c) :=
  match here : s.loops c with
  | .queue .idle | .swapContext =>
    decidable_of_iff ((s.routines c).state ≠ .dataWait) (by rw [State.Looks, here])
  | .queue (.deqReturn none) => .isFalse (by rw [State.Looks, here]; exact id)
  | .queue (.deqReturn (some _)) | .queue .deqLoadHead | .queue (.deqLoadCommit _) | .queue (.deqRead _)
  | .queue (.deqCasHead _ _) | .queue (.enqLoadTail _) | .queue (.enqLoadHead _ _) | .queue (.enqCasTail _ _)
  | .queue (.enqStore _ _) | .queue (.enqCasCommit _) | .queue (.enqReturn _) | .runTask =>
    .isTrue (by rw [State.Looks, here]; trivial)

instance (s : State α κ π T) (a : α) : Decidable (s.Notifies a) :=
  match here : s.callers a with
  | .queue (.enqReturn _) | .notify _ .readDataWait _ | .notify _ .setUpdateFlag _ =>
    .isTrue (by rw [State.Notifies, here]; trivial)
  | .notify _ .readIoWait rest | .notify _ .notify rest =>
    decidable_of_iff (rest.isEmpty = false) (by rw [State.Notifies, here]; cases rest <;> simp)
  | .queue .idle | .queue (.deqReturn _) | .queue .deqLoadHead | .queue (.deqLoadCommit _) | .queue (.deqRead _)
  | .queue (.deqCasHead _ _) | .queue (.enqLoadTail _) | .queue (.enqLoadHead _ _) | .queue (.enqCasTail _ _)
  | .queue (.enqStore _ _) | .queue (.enqCasCommit _) =>
    .isFalse (by rw [State.Notifies, here]; exact id)

instance (tasks : List κ) (s : State α κ π T) (a : α) : Decidable (s.LastLook tasks a) :=
  match here : s.callers a with
  | .queue (.enqReturn _) => decidable_of_iff (tasks.isEmpty = true) (by rw [State.LastLook, here, List.isEmpty_iff])
  | .notify c .readDataWait [] => decidable_of_iff ((s.routines c).state ≠ .dataWait) (by rw [State.LastLook, here])
  | .notify _ .readDataWait (_ :: _) | .notify _ .readIoWait _ | .notify _ .setUpdateFlag _ | .notify _ .notify _
  | .queue .idle | .queue (.deqReturn _) | .queue .deqLoadHead | .queue (.deqLoadCommit _) | .queue (.deqRead _)
  | .queue (.deqCasHead _ _) | .queue (.enqLoadTail _) | .queue (.enqLoadHead _ _) | .queue (.enqCasTail _ _)
  | .queue (.enqStore _ _) | .queue (.enqCasCommit _) =>
    .isFalse (by rw [State.LastLook, here]; exact id)

instance [DecidableEq α] [Fintype α] [Fintype κ] (tasks : List κ) (s : State α κ π T) (e : Event α κ π T) :
    Decidable (InTime tasks s e) :=
  match e with
  | .caller a _ =>
    have : Decidable ((∃ b, b ≠ a ∧ s.Notifies b) ∨ ∃ c, (s.routines c).UpdatePending ∨ s.Looks c) :=
      inferInstanceAs (Decidable (_ ∨ _))
    inferInstanceAs (Decidable (_ → _ → _))
  | .enqueue .. | .process .. => inferInstanceAs (Decidable True)

end CyberRT.TaskManager

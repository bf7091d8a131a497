import CyberRT.Lib.Machine

namespace CyberRT
open Concur
universe u

namespace Timer

/-- Who has a shared pointer to a task: the timer in `task_`, a call of `Stop` in `tmp_task`, `Tick`, or the callback
of the task. -/
inductive Owner (τ : Type u)
  | timer
  | stop (t : τ)
  | tick
  | closure (i : Nat)
  deriving DecidableEq

/-- The next access of `Start` or `Stop`, of which `started_.exchange` is the first. -/
inductive CallPc
  | idle
  | initTimerTask (valid : Bool)
  | addTask
  | testTask
  | copyTask
  | lock (k : Nat)
  | reset (k : Nat)
  | unlock (k : Nat)
  | release (k : Nat)
  | crashed
  deriving DecidableEq

/-- The same for `Tick`, which has locked the weak pointer to a task. -/
inductive TickPc
  | idle
  | post (k : Nat)
  | release (k : Nat)
  deriving DecidableEq

/-- The same for a closure that was posted, with the raw pointer to the callback of a task. -/
inductive ClosurePc
  | posted (k : Nat)
  | entered (k : Nat)
  | locked (k : Nat)
  | callback (k : Nat)
  | addTask (k : Nat)
  | unlock (k : Nat)
  | release (k : Nat)
  | done
  deriving DecidableEq

end Timer

/-- A timer, its tasks, the weak pointers to them in the buckets of the wheel, and the closures that `Tick` has posted.
`stopped` says that `Stop` has returned and `Start` has not been called since; the last two fields record what must
not happen. -/
structure Timer (τ : Type u) where
  started : Bool
  task : Option Nat
  created : Nat
  owners : Nat → List (Timer.Owner τ)
  mutex : Nat → Option (Timer.Owner τ)
  wheel : List Nat
  running : Bool
  calls : τ → Timer.CallPc
  tick : Timer.TickPc
  closures : Nat → Timer.ClosurePc
  posted : Nat
  stopped : Bool
  usedDestroyed : Bool
  calledStopped : Bool

namespace Timer

inductive Event (τ : Type u)
  | start (t : τ) (valid : Bool)
  | stop (t : τ)
  | next (t : τ)
  | tick (k : Nat)
  | tickNext
  | run (i : Nat)
  | shutdown

variable {τ : Type u} [DecidableEq τ]

def new (τ : Type u) : Timer τ where
  started := false
  task := none
  created := 0
  owners _ := []
  mutex _ := none
  wheel := []
  running := false
  calls _ := .idle
  tick := .idle
  closures _ := .done
  posted := 0
  stopped := false
  usedDestroyed := false
  calledStopped := false

/-- A task whose last owner is gone is destroyed. -/
def Destroyed (s : Timer τ) (k : Nat) : Prop :=
  s.owners k = []

instance (s : Timer τ) (k : Nat) : Decidable (s.Destroyed k) :=
  inferInstanceAs (Decidable (_ = _))

def acquire (s : Timer τ) (k : Nat) (o : Owner τ) : Timer τ :=
  { s with owners := Function.update s.owners k (o :: s.owners k) }

def drop (s : Timer τ) (k : Nat) (o : Owner τ) : Timer τ :=
  { s with owners := Function.update s.owners k ((s.owners k).erase o) }

def setMutex (s : Timer τ) (k : Nat) (o : Option (Owner τ)) : Timer τ :=
  { s with mutex := Function.update s.mutex k o }

def goto (s : Timer τ) (t : τ) (pc : CallPc) : Timer τ :=
  { s with calls := Function.update s.calls t pc }

def closureGoto (s : Timer τ) (i : Nat) (pc : ClosurePc) : Timer τ :=
  { s with closures := Function.update s.closures i pc }

/-- `TimingWheel::AddTask`, which starts the wheel. -/
def addTask (s : Timer τ) (k : Nat) : Timer τ :=
  { s with wheel := k :: s.wheel, running := true }

/-- `task_.reset()` -/
def resetTask (s : Timer τ) : Timer τ :=
  match s.task with
  | some k => { s.drop k .timer with task := none }
  | none => s

/-- `task_.reset(new TimerTask(timer_id_))` -/
def newTask (s : Timer τ) : Timer τ :=
  { s.resetTask.acquire s.created .timer with task := some s.created, created := s.created + 1 }

/-- `Start`, as far as `started_.exchange(true)`. -/
def start (s : Timer τ) (t : τ) (valid : Bool) : Timer τ :=
  { s with started := true, stopped := false }.goto t (if s.started then .idle else .initTimerTask valid)

/-- `Stop`, as far as `started_.exchange(false)`. -/
def stop (s : Timer τ) (t : τ) : Timer τ :=
  if s.started then { s with started := false }.goto t .testTask
  else { s with stopped := true }

/-- One step of `Start` or `Stop`. -/
def next (s : Timer τ) (t : τ) : Option (Timer τ) :=
  match s.calls t with
  | .initTimerTask valid => some (if valid then s.newTask.goto t .addTask else s.goto t .idle)
  | .addTask =>
    match s.task with
    | some k => some ((s.addTask k).goto t .idle)
    | none => some (s.goto t .crashed)
  | .testTask =>
    match s.task with
    | some _ => some (s.goto t .copyTask)
    | none => some ({ s with stopped := true }.goto t .idle)
  | .copyTask =>
    match s.task with
    | some k => some ((s.acquire k (.stop t)).goto t (.lock k))
    | none => some (s.goto t .crashed)
  | .lock k =>
    match s.mutex k with
    | none => some ((s.setMutex k (some (.stop t))).goto t (.reset k))
    | some _ => none
  | .reset k => some (s.resetTask.goto t (.unlock k))
  | .unlock k => some ((s.setMutex k none).goto t (.release k))
  | .release k => some ({ s.drop k (.stop t) with stopped := true }.goto t .idle)
  | .idle | .crashed => none

/-- `Tick` locks a weak pointer that it finds in a bucket. -/
def tickLock (s : Timer τ) (k : Nat) : Option (Timer τ) :=
  match s.tick with
  | .idle =>
    if k ∈ s.wheel then
      let s := { s with wheel := s.wheel.erase k }
      some (if s.Destroyed k then s else { s.acquire k .tick with tick := .post k })
    else none
  | _ => none

/-- It posts the closure with the raw pointer, and lets go of the task. -/
def tickNext (s : Timer τ) : Option (Timer τ) :=
  match s.tick with
  | .post k => some { s.closureGoto s.posted (.posted k) with posted := s.posted + 1, tick := .release k }
  | .release k => some { s.drop k .tick with tick := .idle }
  | .idle => none

/-- One step of a closure: the raw pointer to the callback is dereferenced if the wheel runs; the weak pointer that
the callback has captured, and that lies in the task, is locked; the mutex of the task is locked, and the user's
callback is called. -/
def run (oneshot : Bool) (s : Timer τ) (i : Nat) : Option (Timer τ) :=
  match s.closures i with
  | .posted k =>
    some (if ¬ s.running then s.closureGoto i .done
      else if s.Destroyed k then { s with usedDestroyed := true }.closureGoto i .done
      else s.closureGoto i (.entered k))
  | .entered k =>
    some (if s.Destroyed k then { s with usedDestroyed := true }.closureGoto i .done
      else (s.acquire k (.closure i)).closureGoto i (.locked k))
  | .locked k =>
    match s.mutex k with
    | none => some ((s.setMutex k (some (.closure i))).closureGoto i (.callback k))
    | some _ => none
  | .callback k =>
    some ({ s with calledStopped := s.calledStopped || s.stopped }.closureGoto i
      (if oneshot then .unlock k else .addTask k))
  | .addTask k => some ((s.addTask k).closureGoto i (.unlock k))
  | .unlock k => some ((s.setMutex k none).closureGoto i (.release k))
  | .release k => some ((s.drop k (.closure i)).closureGoto i .done)
  | .done => none

/-- Any number of callers of `Start` and `Stop`, the thread of the wheel, and the posted closures. -/
def machine (τ : Type u) [DecidableEq τ] (oneshot : Bool) : Machine (Timer τ) (Event τ) where
  init := .new τ
  step s
    | .start t valid => if s.calls t = .idle then some (s.start t valid) else none
    | .stop t => if s.calls t = .idle then some (s.stop t) else none
    | .next t => s.next t
    | .tick k => s.tickLock k
    | .tickNext => s.tickNext
    | .run i => s.run oneshot i
    | .shutdown => some { s with running := false }

end Timer

end CyberRT

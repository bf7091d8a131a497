import CyberRT.Base.BoundedQueueFifo
import CyberRT.Lib.Count

namespace CyberRT.BlockWait
open Concur
variable {τ T : Type}

/-- A `BoundedQueue` with a `BlockWaitStrategy`: `waiters` are the threads that its condition variable blocks,
`mutex` says whether somebody holds its mutex. -/
structure Shared (τ T : Type) where
  queue : BoundedQueue T
  breakAllWait : Bool
  mutex : Bool
  waiters : List τ

/-- Where a thread stands: in `Enqueue` or in the `Dequeue` of a `WaitDequeue`, or outside of any call when it
is idle there; in the rest of `WaitDequeue`, which has called `EmptyWait` from `wait` to `unlock`; or before the
second access of `BreakAllWait`. -/
inductive Pc (T : Type)
  | queue (l : BoundedQueue.Local T)
  | testBreak
  | wait
  | waiting
  | relock
  | unlock
  | notifyAll

structure Local (τ T : Type) where
  id : τ
  pc : Pc T

/-- What a thread outside of a call does next. A thread inside one takes its next step: a weak compare-exchange
may fail and a wait may end although there is no reason, and a notification picks one of the waiters. -/
inductive Choice (T : Type)
  | enqueue (element : T)
  | waitDequeue
  | breakAllWait
  | run (spurious : Bool) (picked : Nat)

def Local.goto (l : Local τ T) (pc : Pc T) : Local τ T :=
  { l with pc := pc }

/-- `cv_.notify_one()`: one of the threads that wait, if there is one, goes on. -/
def Shared.notifyOne (k : Shared τ T) (picked : Nat) : Shared τ T :=
  { k with waiters := k.waiters.eraseIdx (picked % k.waiters.length) }

variable [DecidableEq τ]

/-- One access of a thread inside a call. -/
def run (k : Shared τ T) (l : Local τ T) (spurious : Bool) (picked : Nat) : Option (Shared τ T × Local τ T) :=
  match l.pc with
  | .queue (.enqReturn true) => some (k.notifyOne picked, l.goto (.queue .idle))
  | .queue (.deqReturn none) => if k.mutex then none else some ({ k with mutex := true }, l.goto .wait)
  | .queue inner =>
    (BoundedQueue.act k.queue inner (.run spurious)).map fun (queue, next) =>
      ({ k with queue := queue }, l.goto (.queue next))
  | .testBreak => some (k, l.goto (.queue (if k.breakAllWait then .idle else .deqLoadHead)))
  | .wait => some ({ k with mutex := false, waiters := k.waiters ++ [l.id] }, l.goto .waiting)
  | .waiting =>
    if l.id ∈ k.waiters ∧ spurious = false then none
    else some ({ k with waiters := k.waiters.erase l.id }, l.goto .relock)
  | .relock => if k.mutex then none else some ({ k with mutex := true }, l.goto .unlock)
  | .unlock => some ({ k with mutex := false }, l.goto .testBreak)
  | .notifyAll => some ({ k with waiters := [] }, l.goto (.queue .idle))

def act (k : Shared τ T) (l : Local τ T) : Choice T → Option (Shared τ T × Local τ T)
  | .enqueue element =>
    match l.pc with
    | .queue .idle => some (k, l.goto (.queue (.enqLoadTail element)))
    | _ => none
  | .waitDequeue =>
    match l.pc with
    | .queue .idle => some (k, l.goto .testBreak)
    | _ => none
  | .breakAllWait =>
    match l.pc with
    | .queue .idle => some ({ k with breakAllWait := true }, l.goto .notifyAll)
    | _ => none
  | .run spurious picked => run k l spurious picked

abbrev State (τ T : Type) := Config τ (Shared τ T) (Local τ T)

/-- Any number of producers, consumers and callers of `BreakAllWait` on one queue. -/
def machine (τ : Type) {T : Type} [DecidableEq τ] [Inhabited T] (size : Nat) : Machine (State τ T) (τ × Choice T) :=
  Config.machine ⟨.init size, false, false, []⟩ (fun t => ⟨t, .queue .idle⟩) act

/-- Every way a thread can move, with the guard of the branch it takes. -/
inductive Effect (k : Shared τ T) : Local τ T → Shared τ T → Local τ T → Prop
  | enqueue (id element) : Effect k ⟨id, .queue .idle⟩ k ⟨id, .queue (.enqLoadTail element)⟩
  | waitDequeue (id) : Effect k ⟨id, .queue .idle⟩ k ⟨id, .testBreak⟩
  | breakAllWait (id) : Effect k ⟨id, .queue .idle⟩ { k with breakAllWait := true } ⟨id, .notifyAll⟩
  | inside (id) {inner next : BoundedQueue.Local T} {queue : BoundedQueue T} {spurious : Bool} :
      inner ≠ .enqReturn true → inner ≠ .deqReturn none →
      BoundedQueue.act k.queue inner (.run spurious) = some (queue, next) →
      Effect k ⟨id, .queue inner⟩ { k with queue := queue } ⟨id, .queue next⟩
  | notifyOne (id picked) : Effect k ⟨id, .queue (.enqReturn true)⟩ (k.notifyOne picked) ⟨id, .queue .idle⟩
  | lock (id) : Effect k ⟨id, .queue (.deqReturn none)⟩ { k with mutex := true } ⟨id, .wait⟩
  | broken (id) : k.breakAllWait = true → Effect k ⟨id, .testBreak⟩ k ⟨id, .queue .idle⟩
  | dequeue (id) : k.breakAllWait = false → Effect k ⟨id, .testBreak⟩ k ⟨id, .queue .deqLoadHead⟩
  | wait (id) : Effect k ⟨id, .wait⟩ { k with mutex := false, waiters := k.waiters ++ [id] } ⟨id, .waiting⟩
  | woken (id) : Effect k ⟨id, .waiting⟩ { k with waiters := k.waiters.erase id } ⟨id, .relock⟩
  | relock (id) : Effect k ⟨id, .relock⟩ { k with mutex := true } ⟨id, .unlock⟩
  | unlock (id) : Effect k ⟨id, .unlock⟩ { k with mutex := false } ⟨id, .testBreak⟩
  | notifyAll (id) : Effect k ⟨id, .notifyAll⟩ { k with waiters := [] } ⟨id, .queue .idle⟩

theorem run_effect {k k' : Shared τ T} {l l' : Local τ T} {spurious : Bool} {picked : Nat}
    (step : run k l spurious picked = some (k', l')) : Effect k l k' l' := by
  obtain ⟨id, pc⟩ := l
  simp only [run, Local.goto] at step
  split at step
  · cases step
    exact .notifyOne id picked
  · split at step
    · cases step
    · cases step
      exact .lock id
  · rename_i inner notReturned notEmpty
    obtain ⟨⟨queue, next⟩, moved, same⟩ := Option.map_eq_some_iff.mp step
    cases same
    exact .inside id notReturned notEmpty moved
  · cases step
    split
    · rename_i broken
      exact .broken id broken
    · rename_i going
      exact .dequeue id (Bool.eq_false_iff.mpr going)
  · cases step
    exact .wait id
  · split at step
    · cases step
    · cases step
      exact .woken id
  · split at step
    · cases step
    · cases step
      exact .relock id
  · cases step
    exact .unlock id
  · cases step
    exact .notifyAll id

theorem act_effect {k k' : Shared τ T} {l l' : Local τ T} {c : Choice T} (step : act k l c = some (k', l')) :
    Effect k l k' l' := by
  obtain ⟨id, pc⟩ := l
  cases c with
  | run spurious picked => exact run_effect step
  | enqueue element =>
    simp only [act, Local.goto] at step
    split at step
    · cases step
      exact .enqueue id element
    · cases step
  | waitDequeue =>
    simp only [act, Local.goto] at step
    split at step
    · cases step
      exact .waitDequeue id
    · cases step
  | breakAllWait =>
    simp only [act, Local.goto] at step
    split at step
    · cases step
      exact .breakAllWait id
    · cases step

theorem Effect.id {k k' : Shared τ T} {l l' : Local τ T} (effect : Effect k l k' l') : l'.id = l.id := by
  cases effect <;> rfl

/-- Where a thread stands in the operations of the queue. -/
def Pc.inner : Pc T → BoundedQueue.Local T
  | .queue l => l
  | _ => .idle

/-- The queue with its threads, without the waiting. -/
def queueOf (s : State τ T) : Config τ (BoundedQueue T) (BoundedQueue.Local T) :=
  s.project Shared.queue fun l => l.pc.inner

/-- A step changes nothing of the queue and its threads, or is a step of theirs. -/
theorem Effect.queue {k k' : Shared τ T} {l l' : Local τ T} (effect : Effect k l k' l') :
    (k'.queue = k.queue ∧ l'.pc.inner = l.pc.inner) ∨
      ∃ c, BoundedQueue.act k.queue l.pc.inner c = some (k'.queue, l'.pc.inner) := by
  cases effect with
  | enqueue id element => exact .inr ⟨.enqueue element, rfl⟩
  | inside id _ _ moved => exact .inr ⟨_, moved⟩
  | notifyOne | lock => exact .inr ⟨.run false, rfl⟩
  | dequeue => exact .inr ⟨.dequeue, rfl⟩
  | waitDequeue | breakAllWait | broken | wait | woken | relock | unlock | notifyAll => exact .inl ⟨rfl, rfl⟩

theorem queueOf_reach [Inhabited T] {size : Nat} {s : State τ T} (reach : (machine τ size).Reach s) :
    (BoundedQueue.machine τ size).Reach (queueOf s) :=
  Config.reach_project (fun _ _ _ _ _ step => (act_effect step).queue) reach

end CyberRT.BlockWait

import CyberRT.Lib.Threads
import Mathlib.Data.Nat.Init

namespace CyberRT
open Concur
variable {T : Type}

/-- The shared fields of `BoundedQueue`. The counters are natural numbers: they are compared with
the source only below 2^64. -/
structure BoundedQueue (T : Type) where
  head : Nat
  tail : Nat
  commit : Nat
  poolSize : Nat
  pool : Nat → T
  /-- The elements of the successful tail CASes in ticket order; ticket `k` is entry `k - 1`. -/
  enqueued : List T
  /-- The elements of the successful head CASes in the order of the CASes. -/
  dequeued : List T

namespace BoundedQueue

/-- `Init`: head and tail each occupy a space, and `size + 2` is computed in 64 bits. -/
def init [Inhabited T] (size : Nat) : BoundedQueue T where
  head := 0
  tail := 1
  commit := 1
  poolSize := (size + 2) % 2 ^ 64
  pool := fun _ => default
  enqueued := []
  dequeued := []

/-- `GetIndex`; a pool of size zero traps on the division. -/
def getIndex (q : BoundedQueue T) (num : Nat) : Option Nat :=
  if q.poolSize = 0 then none else some (num - num / q.poolSize * q.poolSize)

def size (q : BoundedQueue T) : Nat :=
  q.tail - q.head - 1

/-- Where a thread stands inside `Enqueue` or `Dequeue`, with the locals it carries. -/
inductive Local (T : Type)
  | idle
  | enqLoadTail (element : T)
  | enqLoadHead (element : T) (oldTail : Nat)
  | enqCasTail (element : T) (oldTail : Nat)
  | enqStore (element : T) (oldTail : Nat)
  | enqCasCommit (oldTail : Nat)
  | enqReturn (result : Bool)
  | deqLoadHead
  | deqLoadCommit (oldHead : Nat)
  | deqRead (oldHead : Nat)
  | deqCasHead (oldHead : Nat) (element : T)
  | deqReturn (result : Option T)

/-- A caller starts an operation; a thread inside one takes its next step, and a weak
compare-exchange may fail although the values agree. -/
inductive Choice (T : Type)
  | enqueue (element : T)
  | dequeue
  | run (spurious : Bool)

/-- One atomic access of `Enqueue` or `Dequeue`. Both overloads of `Enqueue` copy the element
and have this body; `NotifyOne` does not touch the queue and goes with the return. -/
def act (q : BoundedQueue T) : Local T → Choice T → Option (BoundedQueue T × Local T)
  | .idle, .enqueue element => some (q, .enqLoadTail element)
  | .idle, .dequeue => some (q, .deqLoadHead)
  | .enqLoadTail element, .run _ => some (q, .enqLoadHead element q.tail)
  | .enqLoadHead element oldTail, .run _ => do
    let next ← q.getIndex (oldTail + 1)
    let first ← q.getIndex q.head
    if next = first then some (q, .enqReturn false) else some (q, .enqCasTail element oldTail)
  | .enqCasTail element oldTail, .run spurious =>
    if q.tail = oldTail ∧ spurious = false then
      some ({ q with tail := oldTail + 1, enqueued := q.enqueued ++ [element] },
        .enqStore element oldTail)
    else some (q, .enqLoadHead element q.tail)
  | .enqStore element oldTail, .run _ => do
    let slot ← q.getIndex oldTail
    some ({ q with pool := Function.update q.pool slot element }, .enqCasCommit oldTail)
  | .enqCasCommit oldTail, .run spurious =>
    if q.commit = oldTail ∧ spurious = false then
      some ({ q with commit := oldTail + 1 }, .enqReturn true)
    else some (q, .enqCasCommit oldTail)
  | .enqReturn _, .run _ => some (q, .idle)
  | .deqLoadHead, .run _ => some (q, .deqLoadCommit q.head)
  | .deqLoadCommit oldHead, .run _ =>
    if oldHead + 1 = q.commit then some (q, .deqReturn none) else some (q, .deqRead oldHead)
  | .deqRead oldHead, .run _ => do
    let slot ← q.getIndex (oldHead + 1)
    some (q, .deqCasHead oldHead (q.pool slot))
  | .deqCasHead oldHead element, .run spurious =>
    if q.head = oldHead ∧ spurious = false then
      some ({ q with head := oldHead + 1, dequeued := q.dequeued ++ [element] },
        .deqReturn (some element))
    else some (q, .deqLoadCommit q.head)
  | .deqReturn _, .run _ => some (q, .idle)
  | _, _ => none

/-- Any number of threads on one queue. -/
def machine (τ : Type) [DecidableEq τ] [Inhabited T] (size : Nat) :
    Machine (Config τ (BoundedQueue T) (Local T)) (τ × Choice T) :=
  Config.machine (init size) (fun _ => .idle) act

theorem getIndex_eq_some {q : BoundedQueue T} {num slot : Nat} :
    q.getIndex num = some slot ↔ 0 < q.poolSize ∧ slot = num % q.poolSize := by
  unfold getIndex
  split
  · simp_all
  · simp only [Option.some.injEq, Nat.mod_eq_sub_div_mul]
    omega

/-- Every way a thread can move, with the guard of the branch it takes. -/
inductive Act (q : BoundedQueue T) : Local T → BoundedQueue T → Local T → Prop
  | enqueue (element) : Act q .idle q (.enqLoadTail element)
  | dequeue : Act q .idle q .deqLoadHead
  | loadTail (element) : Act q (.enqLoadTail element) q (.enqLoadHead element q.tail)
  | full (element oldTail) : 0 < q.poolSize →
      (oldTail + 1) % q.poolSize = q.head % q.poolSize →
      Act q (.enqLoadHead element oldTail) q (.enqReturn false)
  | room (element oldTail) : 0 < q.poolSize →
      (oldTail + 1) % q.poolSize ≠ q.head % q.poolSize →
      Act q (.enqLoadHead element oldTail) q (.enqCasTail element oldTail)
  | ticket (element) : Act q (.enqCasTail element q.tail)
      { q with tail := q.tail + 1, enqueued := q.enqueued ++ [element] } (.enqStore element q.tail)
  | retryTail (element oldTail) : Act q (.enqCasTail element oldTail) q (.enqLoadHead element q.tail)
  | store (element oldTail) : 0 < q.poolSize → Act q (.enqStore element oldTail)
      { q with pool := Function.update q.pool (oldTail % q.poolSize) element } (.enqCasCommit oldTail)
  | commit : Act q (.enqCasCommit q.commit) { q with commit := q.commit + 1 } (.enqReturn true)
  | retryCommit (oldTail) : Act q (.enqCasCommit oldTail) q (.enqCasCommit oldTail)
  | enqReturn (result) : Act q (.enqReturn result) q .idle
  | loadHead : Act q .deqLoadHead q (.deqLoadCommit q.head)
  | empty (oldHead) : oldHead + 1 = q.commit → Act q (.deqLoadCommit oldHead) q (.deqReturn none)
  | waiting (oldHead) : oldHead + 1 ≠ q.commit → Act q (.deqLoadCommit oldHead) q (.deqRead oldHead)
  | read (oldHead) : 0 < q.poolSize → Act q (.deqRead oldHead) q
      (.deqCasHead oldHead (q.pool ((oldHead + 1) % q.poolSize)))
  | take (element) : Act q (.deqCasHead q.head element)
      { q with head := q.head + 1, dequeued := q.dequeued ++ [element] } (.deqReturn (some element))
  | retryHead (oldHead element) : Act q (.deqCasHead oldHead element) q (.deqLoadCommit q.head)
  | deqReturn (result) : Act q (.deqReturn result) q .idle

theorem act_cases {q q' : BoundedQueue T} {l l' : Local T} {c : Choice T}
    (step : act q l c = some (q', l')) : Act q l q' l' := by
  cases l <;> cases c <;> simp only [act, reduceCtorEq, Option.some.injEq, Prod.mk.injEq] at step
  case idle.enqueue => obtain ⟨rfl, rfl⟩ := step; exact .enqueue _
  case idle.dequeue => obtain ⟨rfl, rfl⟩ := step; exact .dequeue
  case enqLoadTail.run => obtain ⟨rfl, rfl⟩ := step; exact .loadTail _
  case enqReturn.run => obtain ⟨rfl, rfl⟩ := step; exact .enqReturn _
  case deqLoadHead.run => obtain ⟨rfl, rfl⟩ := step; exact .loadHead
  case deqReturn.run => obtain ⟨rfl, rfl⟩ := step; exact .deqReturn _
  case enqLoadHead.run element oldTail _ =>
    obtain ⟨next, atNext, step⟩ := Option.bind_eq_some_iff.mp step
    obtain ⟨first, atFirst, step⟩ := Option.bind_eq_some_iff.mp step
    obtain ⟨positive, rfl⟩ := getIndex_eq_some.mp atNext
    obtain ⟨_, rfl⟩ := getIndex_eq_some.mp atFirst
    split at step <;> cases Option.some.inj step
    · exact .full _ _ positive (by assumption)
    · exact .room _ _ positive (by assumption)
  case enqCasTail.run element oldTail spurious =>
    split at step <;> cases Option.some.inj step
    · rename_i same
      obtain ⟨rfl, _⟩ := same
      exact .ticket _
    · exact .retryTail _ _
  case enqStore.run element oldTail _ =>
    obtain ⟨slot, atSlot, step⟩ := Option.bind_eq_some_iff.mp step
    obtain ⟨positive, rfl⟩ := getIndex_eq_some.mp atSlot
    cases Option.some.inj step
    exact .store _ _ positive
  case enqCasCommit.run oldTail spurious =>
    split at step <;> cases Option.some.inj step
    · rename_i same
      obtain ⟨rfl, _⟩ := same
      exact .commit
    · exact .retryCommit _
  case deqLoadCommit.run oldHead _ =>
    split at step <;> cases Option.some.inj step
    · exact .empty _ (by assumption)
    · exact .waiting _ (by assumption)
  case deqRead.run oldHead _ =>
    obtain ⟨slot, atSlot, step⟩ := Option.bind_eq_some_iff.mp step
    obtain ⟨positive, rfl⟩ := getIndex_eq_some.mp atSlot
    cases Option.some.inj step
    exact .read _ positive
  case deqCasHead.run oldHead element spurious =>
    split at step <;> cases Option.some.inj step
    · rename_i same
      obtain ⟨rfl, _⟩ := same
      exact .take _
    · exact .retryHead _ _

end BoundedQueue

end CyberRT

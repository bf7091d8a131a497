import CyberRT.Base.BoundedQueueFifo
import Mathlib.Tactic.IntervalCases

namespace CyberRT.BoundedQueue
open Concur
variable {T τ : Type}

/-- A refused `Enqueue` met a full queue, and a refused `Dequeue` met a queue without a committed
element, at some moment between its start and its return. -/
structure RefusedForCause (size : Nat) (state : Nat → Config τ (BoundedQueue T) (Local T))
    (event : Nat → τ × Choice T) (n : Nat) : Prop where
  enqueue : ∀ t element i j, j ≤ n → Config.InCall .idle state event t (.enqueue element) i j →
    (state j).thread t = .enqReturn false → ∃ k, i ≤ k ∧ k ≤ j ∧ (state k).shared.size = size
  dequeue : ∀ t i j, j ≤ n → Config.InCall .idle state event t .dequeue i j →
    (state j).thread t = .deqReturn none →
      ∃ k, i ≤ k ∧ k ≤ j ∧ (state k).shared.head + 1 = (state k).shared.commit

/-- The tail that a thread is about to test against the head. -/
def Local.testedTail? : Local T → Option Nat
  | .enqLoadHead _ oldTail => some oldTail
  | _ => none

/-- The step is not a full test on a tail so old that the head has overtaken it. -/
def FreshTest (s : Config τ (BoundedQueue T) (Local T)) (e : τ × Choice T) : Prop :=
  ∀ oldTail ∈ (s.thread e.1).testedTail?, s.shared.head ≤ oldTail

instance (s : Config τ (BoundedQueue T) (Local T)) (e : τ × Choice T) : Decidable (FreshTest s e) :=
  inferInstanceAs (Decidable (∀ oldTail ∈ (s.thread e.1).testedTail?, s.shared.head ≤ oldTail))

/-- A full test refuses only if the ring was full when the tail was loaded, as long as the head
has not overtaken that tail. -/
theorem full_when_loaded {q q' : BoundedQueue T} (inv : Inv q) (grows : Grows q q') {size : Nat}
    (pool : q'.poolSize = size + 2) (fresh : q'.head ≤ q.tail)
    (refuses : (q.tail + 1) % q'.poolSize = q'.head % q'.poolSize) : q.size = size := by
  have bound := inv.tail_bound
  have head := grows.head
  rw [← grows.poolSize, pool] at bound
  have turns := Nat.sub_mod_eq_zero_of_mod_eq refuses
  have divides := Nat.le_of_dvd (by omega) (Nat.dvd_of_mod_eq_zero turns)
  simp only [BoundedQueue.size]
  omega

/-- What the progress of an `Enqueue` that started at step `i` says about the states since: its tail
was loaded in one of them, and if it refuses then one of them was full. -/
def EnqueueSince (size : Nat) (state : Nat → Config τ (BoundedQueue T) (Local T)) (i j : Nat) : Local T → Prop
  | .enqLoadHead _ oldTail | .enqCasTail _ oldTail => ∃ k, i ≤ k ∧ k ≤ j ∧ (state k).shared.tail = oldTail
  | .enqReturn false => ∃ k, i ≤ k ∧ k ≤ j ∧ (state k).shared.size = size
  | .idle | .deqLoadHead => False
  | _ => True

/-- The same for a `Dequeue`. -/
def DequeueSince (state : Nat → Config τ (BoundedQueue T) (Local T)) (i j : Nat) : Local T → Prop
  | .deqReturn none => ∃ k, i ≤ k ∧ k ≤ j ∧ (state k).shared.head + 1 = (state k).shared.commit
  | .idle | .enqLoadTail _ => False
  | _ => True

theorem EnqueueSince.later {size : Nat} {state : Nat → Config τ (BoundedQueue T) (Local T)} {i j : Nat}
    {l : Local T} (since : EnqueueSince size state i j l) : EnqueueSince size state i (j + 1) l := by
  cases l with
  | enqLoadHead | enqCasTail =>
    obtain ⟨k, lower, upper, loaded⟩ := since
    exact ⟨k, lower, by omega, loaded⟩
  | enqReturn result =>
    cases result with
    | true => trivial
    | false =>
      obtain ⟨k, lower, upper, full⟩ := since
      exact ⟨k, lower, by omega, full⟩
  | _ => exact since

theorem DequeueSince.later {state : Nat → Config τ (BoundedQueue T) (Local T)} {i j : Nat}
    {l : Local T} (since : DequeueSince state i j l) : DequeueSince state i (j + 1) l := by
  cases l with
  | deqReturn result =>
    cases result with
    | some => trivial
    | none =>
      obtain ⟨k, lower, upper, empty⟩ := since
      exact ⟨k, lower, by omega, empty⟩
  | _ => exact since

/-- A call leaves its thread at the first program point of the operation. -/
theorem act_call {q q' : BoundedQueue T} {l l' : Local T} {c : Choice T} (step : act q l c = some (q', l')) :
    (∀ element, c = .enqueue element → l' = .enqLoadTail element) ∧ (c = .dequeue → l' = .deqLoadHead) := by
  constructor
  · rintro element rfl
    cases l <;> simp_all [act]
  · rintro rfl
    cases l <;> simp_all [act]

section Run
variable [DecidableEq τ] [Inhabited T] {size n : Nat}
  {state : Nat → Config τ (BoundedQueue T) (Local T)} {event : Nat → τ × Choice T}

theorem run_grows (run : (machine τ size).Run n state event) {i j : Nat} (before : i ≤ j) (bound : j ≤ n) :
    Grows (state i).shared (state j).shared := by
  refine run.later (R := fun s s' => Grows s.shared s'.shared) ?_ ?_ ?_ before bound
  · exact fun _ => ⟨rfl, le_rfl, le_rfl, le_rfl, fun _ _ recorded => recorded⟩
  · intro _ _ _ first second
    exact ⟨second.poolSize.trans first.poolSize, first.head.trans second.head, first.tail.trans second.tail,
      first.commit.trans second.commit, fun i x recorded => second.recorded i x (first.recorded i x recorded)⟩
  · intro s e s' _ step
    obtain ⟨q', l', moved, rfl⟩ := Config.move_eq_some.mp step
    exact act_grows moved

/-- One step of a thread inside `Enqueue`. The refusing test is the only step that needs the
whole window: the moment it answers for is the one at which its tail was loaded. -/
theorem enqueue_since_step (run : (machine τ size).Run n state event) (fits : size + 2 < 2 ^ 64)
    {t : τ} {i k : Nat} (bound : k < n) (lower : i ≤ k) (fresh : FreshTest (state k) (event k))
    {c : Choice T} {q : BoundedQueue T} {l l' : Local T} (stands : (state k).thread t = l)
    (since : EnqueueSince size state i k l) (step : event k = (t, c))
    (moved : act (state k).shared l c = some (q, l')) (going : l' ≠ .idle) :
    EnqueueSince size state i (k + 1) l' := by
  cases act_cases moved with
  | enqueue | dequeue => exact since.elim
  | enqReturn | deqReturn => exact absurd rfl going
  | loadTail | retryTail => exact ⟨k, lower, by omega, rfl⟩
  | room => exact since.later
  | full element oldTail positive refuses =>
    obtain ⟨m, atLeast, atMost, rfl⟩ := since
    have inv := (holds (run.reach (show m ≤ n by omega))).shared
    have pool := poolSize_eq (run.reach bound.le)
    rw [Nat.mod_eq_of_lt fits] at pool
    have overtaken := fresh (state m).shared.tail (by rw [step, stands]; rfl)
    exact ⟨m, atLeast, by omega, full_when_loaded inv (run_grows run atMost bound.le) pool overtaken refuses⟩
  | loadHead => exact since.elim
  | _ => trivial

theorem dequeue_since_step (run : (machine τ size).Run n state event) {t : τ} {i k : Nat}
    (bound : k < n) (lower : i ≤ k) {c : Choice T} {q : BoundedQueue T} {l l' : Local T}
    (stands : (state k).thread t = l) (since : DequeueSince state i k l)
    (moved : act (state k).shared l c = some (q, l')) (going : l' ≠ .idle) :
    DequeueSince state i (k + 1) l' := by
  have held := holds (run.reach bound.le)
  have here := held.thread t
  rw [stands] at here
  cases act_cases moved with
  | enqueue | dequeue => exact since.elim
  | enqReturn | deqReturn => exact absurd rfl going
  | loadTail => exact since.elim
  | empty oldHead refuses =>
    have ordered := held.shared.head_lt_commit
    have stale : oldHead ≤ (state k).shared.head := here
    exact ⟨k, lower, by omega, by omega⟩
  | _ => trivial

theorem enqueue_since (run : (machine τ size).Run n state event) (fits : size + 2 < 2 ^ 64)
    (fresh : ∀ i, i < n → FreshTest (state i) (event i)) {t : τ} {element : T} {i j : Nat} (bound : j ≤ n)
    (call : Config.InCall .idle state event t (.enqueue element) i j) :
    EnqueueSince size state i j ((state j).thread t) := by
  refine call.induction run bound ?_ ?_ (fun _ _ since => since.later)
  · intro q l moved
    rw [(act_call moved).1 element rfl]
    trivial
  · intro k c q l l' after before stands since step moved going
    exact enqueue_since_step run fits before after (fresh k before) stands since step moved going

theorem dequeue_since (run : (machine τ size).Run n state event) {t : τ} {i j : Nat} (bound : j ≤ n)
    (call : Config.InCall .idle state event t .dequeue i j) : DequeueSince state i j ((state j).thread t) := by
  refine call.induction run bound ?_ ?_ (fun _ _ since => since.later)
  · intro q l moved
    rw [(act_call moved).2 rfl]
    trivial
  · intro k c q l l' after before stands since _ moved going
    exact dequeue_since_step run before after stands since moved going

/-- In every run whose full tests are made before the head overtakes the loaded tail, no operation
is refused without cause. The condition concerns `Enqueue` only: `Dequeue` compares its stale head
with a later commit, which can agree only while the head is still there. -/
theorem refusedForCause_of_fresh (run : (machine τ size).Run n state event) (fits : size + 2 < 2 ^ 64)
    (fresh : ∀ i, i < n → FreshTest (state i) (event i)) : RefusedForCause size state event n where
  enqueue t element i j bound call refused := by
    have since := enqueue_since run fits fresh bound call
    rwa [refused] at since
  dequeue t i j bound call refused := by
    have since := dequeue_since run bound call
    rwa [refused] at since

end Run

/-- A producer puts an element into a queue of size one, and another is refused. -/
def fullRun : List (Bool × Choice Nat) :=
  (true, .enqueue 5) :: List.replicate 6 (true, .run false) ++
    (false, .enqueue 6) :: List.replicate 2 (false, .run false)

theorem refusedForCause_fullRun :
    let state := (machine Bool 1).stateAt fullRun
    (state 7).shared.size = 1 ∧ (state 10).thread false = .enqReturn false ∧
      RefusedForCause 1 state (fun i => fullRun.getD i (false, .dequeue)) fullRun.length := by
  refine ⟨rfl, rfl, refusedForCause_of_fresh (Machine.exec_run _ rfl _) (by decide) ?_⟩
  decide

/-- One producer loads the tail and stops; another puts two elements through the queue. -/
def overtakenRun : List (Bool × Choice Nat) :=
  let step : Bool × Choice Nat := (true, .run false)
  [(false, .enqueue 7), (false, .run false)] ++
    (true, .enqueue 8) :: List.replicate 6 step ++ (true, .enqueue 9) :: List.replicate 6 step ++
    (true, .dequeue) :: List.replicate 5 step ++ (true, .dequeue) :: List.replicate 5 step ++
    [(false, .run false)]

/-- The head has caught up with the tail the first producer holds, so the ring indexes agree and it
is refused, although a queue of size three never held more than two elements. -/
theorem overtaken_refused_without_cause :
    ∃ (n : Nat) (state : Nat → Config Bool (BoundedQueue Nat) (Local Nat))
      (event : Nat → Bool × Choice Nat),
      (machine Bool 3).Run n state event ∧ ¬ RefusedForCause 3 state event n := by
  refine ⟨overtakenRun.length, (machine Bool 3).stateAt overtakenRun, fun i => overtakenRun.getD i (false, .dequeue),
    Machine.exec_run _ rfl _, fun caused => ?_⟩
  have call : Config.InCall .idle ((machine Bool 3).stateAt overtakenRun)
      (fun i => overtakenRun.getD i (false, .dequeue)) false (.enqueue 7) 0 29 := by
    refine ⟨rfl, by decide, fun k lower upper => ?_⟩
    interval_cases k <;> exact fun idle => by cases idle
  obtain ⟨k, _, upper, full⟩ := caused.enqueue false 7 0 29 (by decide) call rfl
  interval_cases k <;> exact absurd full (by decide)

end CyberRT.BoundedQueue

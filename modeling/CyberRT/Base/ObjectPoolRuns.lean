import CyberRT.Base.ObjectPoolPartition
import Mathlib.Tactic.IntervalCases

namespace CyberRT.ObjectPool
open Concur
variable {τ : Type}

/-- `GetObject` and `ConstructObject` return null only if the free list was empty at some moment
between the start of the call and its return. -/
def NullObserved (state : Nat → Config τ ObjectPool Local) (event : Nat → τ × Choice) (n : Nat) : Prop :=
  ∀ t c i j, j ≤ n → (c = .getObject ∨ c = .constructObject) → Config.InCall .idle state event t c i j →
    (state j).thread t = .getReturn none → ∃ k, i ≤ k ∧ k ≤ j ∧ (state k).shared.Free []

/-- What a call that started at step `i` says about the states since: a head without a node, or a
null result, comes from a moment at which the free list was empty. -/
def GetSince (state : Nat → Config τ ObjectPool Local) (i j : Nat) : Local → Prop
  | .getNext _ oldHead => oldHead.node = none → ∃ k, i ≤ k ∧ k ≤ j ∧ (state k).shared.Free []
  | .getReturn result => result = none → ∃ k, i ≤ k ∧ k ≤ j ∧ (state k).shared.Free []
  | .idle => False
  | _ => True

theorem GetSince.later {state : Nat → Config τ ObjectPool Local} {i j : Nat} {l : Local}
    (since : GetSince state i j l) : GetSince state i (j + 1) l := by
  cases l with
  | getNext construct oldHead =>
    intro null
    obtain ⟨k, lower, upper, empty⟩ := since null
    exact ⟨k, lower, by omega, empty⟩
  | getReturn result =>
    intro null
    obtain ⟨k, lower, upper, empty⟩ := since null
    exact ⟨k, lower, by omega, empty⟩
  | _ => exact since

theorem free_nil {p : ObjectPool} (null : p.freeHead.node = none) : p.Free [] := by
  rw [Free, null]
  exact .nil

theorem getSince_step {state : Nat → Config τ ObjectPool Local} {i k : Nat} (lower : i ≤ k) {c : Choice}
    {p' : ObjectPool} {l l' : Local} (since : GetSince state i k l)
    (moved : act (state k).shared l c = some (p', l')) (going : l' ≠ .idle) : GetSince state i (k + 1) l' := by
  have loaded : (state k).shared.freeHead.node = none →
      ∃ m, i ≤ m ∧ m ≤ k + 1 ∧ (state m).shared.Free [] :=
    fun null => ⟨k, lower, by omega, free_nil null⟩
  cases act_cases moved with
  | getObject | constructObject | releaseObject => exact since.elim
  | throw | returnNull | hold | push => exact absurd rfl going
  | load | retryPop => exact loaded
  | empty =>
    intro _
    obtain ⟨m, atLeast, atMost, empty⟩ := since rfl
    exact ⟨m, atLeast, by omega, empty⟩
  | pop construct =>
    cases construct with
    | true => trivial
    | false => exact fun null => by cases null
  | construct => exact fun null => by cases null
  | readNext | loadTop | link | retryPush => trivial

/-- Both calls that take an object begin with the load of `free_head_`. -/
theorem act_get {p p' : ObjectPool} {l l' : Local} {c : Choice} (kind : c = .getObject ∨ c = .constructObject)
    (moved : act p l c = some (p', l')) : ∃ construct, l' = .getLoad construct := by
  rcases kind with rfl | rfl
  · cases act_cases moved
    exact ⟨false, rfl⟩
  · cases act_cases moved
    exact ⟨true, rfl⟩

variable [DecidableEq τ] {size : UInt32} {p : ObjectPool} {n : Nat} {state : Nat → Config τ ObjectPool Local}
  {event : Nat → τ × Choice}

theorem nullObserved_of_run (run : (machine τ p).Run n state event) : NullObserved state event n := by
  intro t c i j bound kind call null
  have since : GetSince state i j ((state j).thread t) := by
    refine call.induction run bound ?_ ?_ (fun _ _ since => since.later)
    · intro p l moved
      obtain ⟨construct, rfl⟩ := act_get kind moved
      trivial
    · intro k d p l l' after _ _ since _ moved going
      exact getSince_step after since moved going
  rw [null] at since
  exact since rfl

/-- The pool neither loses nor doubles a node in a run of any number of threads, exactly if no constructor of `T` throws
inside `ConstructObject` in the run. -/
theorem partition_iff_quiet (made : create size = some p) (run : (machine τ p).Run n state event) :
    ((∀ i, i ≤ n → Partition (state i)) ∧ NullObserved state event n) ↔ ∀ i, i < n → (event i).2 ≠ .throw := by
  constructor
  · intro kept i within thrown
    have step := run.next i within
    rw [← Prod.eta (event i), thrown] at step
    exact throw_not_partition made (run.reach (Nat.le_of_lt within)) step (kept.1 (i + 1) within)
  · intro quiet
    exact ⟨fun i bound => partition_of_reach made (run.reachWhen quiet bound), nullObserved_of_run run⟩

def single : ObjectPool :=
  (create 1).get rfl

theorem create_one : create 1 = some single := rfl

/-- One object, two callers: the second one is told that the pool is empty. -/
def exhaustedRun : List (Bool × Choice) :=
  (false, .getObject) :: List.replicate 4 (false, .run false) ++
    (true, .getObject) :: List.replicate 2 (true, .run false)

theorem exhausted_partition :
    let state := (machine Bool single).stateAt exhaustedRun
    (state 8).thread true = .getReturn none ∧ (state 8).shared.held = [0] ∧ Partition (state 8) ∧
      ∃ k ≤ 8, (state k).shared.Free [] := by
  have run := Machine.exec_run (M := machine Bool single) exhaustedRun rfl (false, .getObject)
  have held := (partition_iff_quiet create_one run).mpr (by decide)
  have call : Config.InCall .idle ((machine Bool single).stateAt exhaustedRun)
      (fun i => exhaustedRun.getD i (false, .getObject)) true .getObject 5 8 := by
    refine ⟨rfl, by decide, fun k lower upper => ?_⟩
    interval_cases k <;> decide
  obtain ⟨k, _, upper, empty⟩ := held.2 true .getObject 5 8 (by decide) (Or.inl rfl) call rfl
  exact ⟨rfl, rfl, held.1 8 (by decide), k, upper, empty⟩

/-- The constructor of the only object throws, and the next caller is told that the pool is empty although nobody holds
an object. -/
def thrownRun : List (Bool × Choice) :=
  (false, .constructObject) :: List.replicate 3 (false, .run false) ++ [(false, .throw)] ++
    (true, .getObject) :: List.replicate 2 (true, .run false)

theorem thrown_not_partition :
    ∃ s, (machine Bool single).Reach s ∧ s.thread false = .idle ∧ s.thread true = .getReturn none ∧
      s.shared.held = [] ∧ s.shared.Free [] ∧ 0 < s.shared.capacity ∧ ¬ Partition s := by
  have reach : (machine Bool single).Reach ((machine Bool single).stateAt thrownRun 8) :=
    Machine.Run.reach (Machine.exec_run thrownRun rfl (false, .getObject)) (by decide)
  have empty : ((machine Bool single).stateAt thrownRun 8).shared.Free [] := free_nil rfl
  refine ⟨_, reach, rfl, rfl, rfl, empty, by decide, fun ⟨free, splits⟩ => ?_⟩
  rw [splits.list.unique empty] at splits
  rcases (splits.arena 0).mp (by decide) with none | none | ⟨t, carries⟩
  · cases none
  · cases none
  · cases t <;> cases carries

end CyberRT.ObjectPool

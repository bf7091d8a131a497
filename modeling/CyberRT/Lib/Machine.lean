import Mathlib.Algebra.Group.Nat.Defs
import Mathlib.Data.Nat.Init
import Mathlib.Logic.Function.Basic
import Mathlib.Order.Basic
import Mathlib.Order.Nat

namespace Concur
universe u v

/-- A machine with labelled steps. `step s e` is the state after event `e`, or `none`
when `e` is not enabled in `s`. -/
structure Machine (σ : Type u) (ε : Type v) where
  init : σ
  step : σ → ε → Option σ

namespace Machine
variable {σ : Type u} {ε : Type v}

/-- The states of the runs all of whose steps meet `ok`, read in the state before the step. -/
inductive ReachWhen (M : Machine σ ε) (ok : σ → ε → Prop) : σ → Prop
  | start : ReachWhen M ok M.init
  | next {s s' : σ} {e : ε} : ReachWhen M ok s → ok s e → M.step s e = some s' → ReachWhen M ok s'

/-- The states of all runs. -/
def Reach (M : Machine σ ε) : σ → Prop :=
  M.ReachWhen fun _ _ => True

/-- The state after a list of events, or `none` if one of them is not enabled. -/
def exec (M : Machine σ ε) : σ → List ε → Option σ
  | s, [] => some s
  | s, e :: es => (M.step s e).bind fun s' => M.exec s' es

/-- Every step of the list of events meets `ok` in the state in which it is taken. -/
def Meets (M : Machine σ ε) (ok : σ → ε → Prop) : σ → List ε → Prop
  | _, [] => True
  | s, e :: es => ok s e ∧ (M.step s e).elim True fun s' => M.Meets ok s' es

instance (M : Machine σ ε) (ok : σ → ε → Prop) [∀ s e, Decidable (ok s e)] (s : σ) (es : List ε) :
    Decidable (M.Meets ok s es) :=
  match es with
  | [] => inferInstanceAs (Decidable True)
  | e :: es =>
    have : Decidable ((M.step s e).elim True fun s' => M.Meets ok s' es) :=
      match M.step s e with
      | none => inferInstanceAs (Decidable True)
      | some s' => instDecidableMeets M ok s' es
    inferInstanceAs (Decidable (_ ∧ _))

/-- The state after the first `i` of a list of events, the initial state if they do not execute. -/
def stateAt (M : Machine σ ε) (es : List ε) (i : Nat) : σ :=
  (M.exec M.init (es.take i)).getD M.init

/-- A run of `n` steps with all its intermediate states, for properties that look back. -/
structure Run (M : Machine σ ε) (n : Nat) (state : Nat → σ) (event : Nat → ε) : Prop where
  start : state 0 = M.init
  next : ∀ i, i < n → M.step (state i) (event i) = some (state (i + 1))

variable {M : Machine σ ε} {ok : σ → ε → Prop}

theorem ReachWhen.invariant {P : σ → Prop} (base : P M.init)
    (keep : ∀ s e s', P s → ok s e → M.step s e = some s' → P s')
    {s : σ} (reach : M.ReachWhen ok s) : P s := by
  induction reach with
  | start => exact base
  | next _ allowed step ih => exact keep _ _ _ ih allowed step

/-- Restricting the steps of a run gives no new states. -/
theorem ReachWhen.reach {s : σ} (reach : M.ReachWhen ok s) : M.Reach s := by
  induction reach with
  | start => exact .start
  | next _ _ step ih => exact .next ih trivial step

/-- The rule for an invariant that leans on what is known of all runs. -/
theorem ReachWhen.invariant_of_reach {P : σ → Prop} (base : P M.init)
    (keep : ∀ s e s', M.Reach s → P s → ok s e → M.step s e = some s' → P s')
    {s : σ} (reach : M.ReachWhen ok s) : P s := by
  induction reach with
  | start => exact base
  | next before allowed step ih => exact keep _ _ _ before.reach ih allowed step

theorem Reach.invariant {P : σ → Prop} (base : P M.init)
    (keep : ∀ s e s', P s → M.step s e = some s' → P s')
    {s : σ} (reach : M.Reach s) : P s :=
  ReachWhen.invariant base (fun s e s' holds _ step => keep s e s' holds step) reach

theorem exec_append {s : σ} {es fs : List ε} :
    M.exec s (es ++ fs) = (M.exec s es).bind fun s' => M.exec s' fs := by
  induction es generalizing s with
  | nil => rfl
  | cons e es ih => simp only [List.cons_append, exec, ih, Option.bind_assoc]

theorem exec_reachWhen {s s' : σ} (reach : M.ReachWhen ok s) {es : List ε} (meets : M.Meets ok s es)
    (run : M.exec s es = some s') : M.ReachWhen ok s' := by
  induction es generalizing s with
  | nil =>
    cases Option.some.inj run
    exact reach
  | cons e es ih =>
    obtain ⟨mid, step, rest⟩ := Option.bind_eq_some_iff.mp run
    simp only [Meets, step, Option.elim_some] at meets
    exact ih (.next reach meets.1 step) meets.2 rest

/-- A property that a step keeps if and only if it meets `ok` holds at the end of a run from a state with the property
if and only if all its steps meet `ok`. -/
theorem exec_iff_meets {P : σ → Prop} (keep : ∀ s e s', M.Reach s → M.step s e = some s' → (P s' ↔ P s ∧ ok s e))
    {s s' : σ} (reach : M.Reach s) {es : List ε} (run : M.exec s es = some s') :
    P s' ↔ P s ∧ M.Meets ok s es := by
  induction es generalizing s with
  | nil =>
    cases Option.some.inj run
    exact (and_iff_left trivial).symm
  | cons e es ih =>
    obtain ⟨mid, step, rest⟩ := Option.bind_eq_some_iff.mp run
    rw [ih (.next reach trivial step) rest, keep s e mid reach step, Meets, step, Option.elim_some, and_assoc]

theorem meets_true (s : σ) (es : List ε) : M.Meets (fun _ _ => True) s es := by
  induction es generalizing s with
  | nil => trivial
  | cons e es ih =>
    refine ⟨trivial, ?_⟩
    cases M.step s e with
    | none => trivial
    | some s' => exact ih s'

/-- The run of a list of events that executes, with its intermediate states. -/
theorem exec_run (es : List ε) (enabled : (M.exec M.init es).isSome) (d : ε) :
    M.Run es.length (M.stateAt es) (fun i => es.getD i d) where
  start := rfl
  next := by
    intro i bound
    obtain ⟨final, run⟩ := Option.isSome_iff_exists.mp enabled
    have split : es = es.take i ++ es[i] :: es.drop (i + 1) := by
      rw [List.getElem_cons_drop, List.take_append_drop]
    rw [split, exec_append] at run
    obtain ⟨before, atBefore, rest⟩ := Option.bind_eq_some_iff.mp run
    obtain ⟨after, step, _⟩ := Option.bind_eq_some_iff.mp rest
    have atAfter : M.exec M.init (es.take (i + 1)) = some after := by
      rw [List.take_succ_eq_append_getElem bound, exec_append, atBefore, Option.bind_some]
      simp only [exec, step, Option.bind_some]
    simp only [stateAt, atBefore, atAfter, Option.getD_some, List.getD_eq_getElem?_getD,
      List.getElem?_eq_getElem bound, step]

theorem stateAt_reachWhen (es : List ε) (meets : M.Meets ok M.init es) (enabled : (M.exec M.init es).isSome) :
    M.ReachWhen ok (M.stateAt es es.length) := by
  obtain ⟨final, run⟩ := Option.isSome_iff_exists.mp enabled
  rw [stateAt, List.take_length, run]
  exact exec_reachWhen .start meets run

theorem stateAt_reach (es : List ε) (enabled : (M.exec M.init es).isSome) :
    M.Reach (M.stateAt es es.length) :=
  stateAt_reachWhen es (meets_true _ _) enabled

/-- Every prefix of a run whose steps meet `ok` ends in a state that such a run reaches. -/
theorem Run.reachWhen {n : Nat} {state : Nat → σ} {event : Nat → ε} (run : M.Run n state event)
    (allowed : ∀ i, i < n → ok (state i) (event i)) {i : Nat} (bound : i ≤ n) :
    M.ReachWhen ok (state i) := by
  induction i with
  | zero =>
    rw [run.start]
    exact .start
  | succ i ih => exact .next (ih (by omega)) (allowed i bound) (run.next i bound)

theorem Run.reach {n : Nat} {state : Nat → σ} {event : Nat → ε} (run : M.Run n state event)
    {i : Nat} (bound : i ≤ n) : M.Reach (state i) :=
  run.reachWhen (fun _ _ => trivial) bound

/-- A property that the steps from `i` on keep holds from `i` on. -/
theorem Run.stays {n : Nat} {state : Nat → σ} {event : Nat → ε} (run : M.Run n state event) {P : σ → Prop} {i j : Nat}
    (start : P (state i)) (before : i ≤ j) (bound : j ≤ n)
    (keep : ∀ k, i ≤ k → k < j → P (state k) → M.step (state k) (event k) = some (state (k + 1)) → P (state (k + 1))) :
    P (state j) := by
  induction j, before using Nat.le_induction with
  | base => exact start
  | succ j after ih =>
    have now := ih (by omega) fun k first last => keep k first (by omega)
    exact keep j after (by omega) now (run.next j bound)

/-- A preorder that every step respects holds from each state of a run to every later one. -/
theorem Run.later {n : Nat} {state : Nat → σ} {event : Nat → ε} (run : M.Run n state event) {R : σ → σ → Prop}
    (refl : ∀ s, R s s) (trans : ∀ s t u, R s t → R t u → R s u)
    (step : ∀ s e s', M.Reach s → M.step s e = some s' → R s s') {i j : Nat} (before : i ≤ j) (bound : j ≤ n) :
    R (state i) (state j) := by
  induction j, before using Nat.le_induction with
  | base => exact refl _
  | succ j _ ih => exact trans _ _ _ (ih (by omega)) (step _ _ _ (run.reach (by omega)) (run.next j bound))

end Machine

end Concur

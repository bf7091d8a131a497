import Mathlib.Data.Fintype.Pigeonhole
import Mathlib.Logic.Relation
import Mathlib.Order.Basic
import Mathlib.Order.Lattice
import Mathlib.Order.Nat

namespace Loop
universe u v

variable {σ : Type u} {ρ : Type v}

/-- A loop that takes at most `fuel` rounds. A round ends in the next state or in the result of the loop, or it does
not end. -/
def run (body : σ → Option (σ ⊕ ρ)) : Nat → σ → Option ρ
  | 0, _ => none
  | fuel + 1, s =>
    match body s with
    | none => none
    | some (.inl next) => run body fuel next
    | some (.inr result) => some result

/-- A computation that returns `r` for all fuel that is enough. -/
def Returns (f : Nat → Option ρ) (r : ρ) : Prop :=
  ∃ enough, ∀ fuel, enough ≤ fuel → f fuel = some r

/-- A loop whose rounds need fuel themselves returns `r` from state `s`. -/
def Ends (body : Nat → σ → Option (σ ⊕ ρ)) (s : σ) (r : ρ) : Prop :=
  ∃ enough, ∀ fuel, enough ≤ fuel → ∀ rounds, enough ≤ rounds → run (body fuel) rounds s = some r

theorem Returns.unique {f : Nat → Option ρ} {r r' : ρ} (first : Returns f r) (second : Returns f r') : r = r' := by
  obtain ⟨m, first⟩ := first
  obtain ⟨n, second⟩ := second
  exact Option.some.inj ((first (max m n) (le_max_left m n)).symm.trans (second (max m n) (le_max_right m n)))

/-- A computation that needs no fuel. -/
theorem Returns.of_eq {f : Nat → Option ρ} {r : ρ} (always : ∀ fuel, f fuel = some r) : Returns f r :=
  ⟨0, fun fuel _ => always fuel⟩

/-- One computation after the other. -/
theorem Returns.bind {α : Type*} {f : Nat → Option α} {g : Nat → α → Option ρ} {a : α} {r : ρ} (first : Returns f a)
    (second : Returns (fun fuel => g fuel a) r) : Returns (fun fuel => (f fuel).bind (g fuel)) r := by
  obtain ⟨m, first⟩ := first
  obtain ⟨n, second⟩ := second
  refine ⟨max m n, fun fuel enough => ?_⟩
  dsimp only
  rw [first fuel (by omega), Option.bind_some]
  exact second fuel (by omega)

theorem Returns.map {α : Type*} {f : Nat → Option α} {a : α} (first : Returns f a) (g : α → ρ) :
    Returns (fun fuel => (f fuel).map g) (g a) := by
  obtain ⟨m, first⟩ := first
  refine ⟨m, fun fuel enough => ?_⟩
  dsimp only
  rw [first fuel enough, Option.map_some]

variable {body : Nat → σ → Option (σ ⊕ ρ)}

/-- The last round. -/
theorem Ends.last {s : σ} {r : ρ} (round : Returns (fun fuel => body fuel s) (.inr r)) : Ends body s r := by
  obtain ⟨m, round⟩ := round
  refine ⟨m + 1, fun fuel enough rounds many => ?_⟩
  obtain ⟨rounds, rfl⟩ : ∃ k, rounds = k + 1 := ⟨rounds - 1, by omega⟩
  have here := round fuel (by omega)
  simp only [run, here]

/-- A round, and the rest of the loop. -/
theorem Ends.next {s s' : σ} {r : ρ} (round : Returns (fun fuel => body fuel s) (.inl s')) (rest : Ends body s' r) :
    Ends body s r := by
  obtain ⟨m, round⟩ := round
  obtain ⟨n, rest⟩ := rest
  refine ⟨max m n + 1, fun fuel enough rounds many => ?_⟩
  obtain ⟨rounds, rfl⟩ : ∃ k, rounds = k + 1 := ⟨rounds - 1, by omega⟩
  have here := round fuel (by omega)
  simp only [run, here]
  exact rest fuel (by omega) rounds (by omega)

/-- The loop with the same fuel for the number of its rounds. -/
theorem Ends.returns {s : σ} {r : ρ} (ends : Ends body s r) : Returns (fun fuel => run (body fuel) fuel s) r := by
  obtain ⟨n, ends⟩ := ends
  exact ⟨n, fun fuel enough => ends fuel enough fuel enough⟩

/-- More rounds do not change the result. -/
theorem run_mono {body : σ → Option (σ ⊕ ρ)} {s : σ} {r : ρ} {rounds more : Nat} (done : run body rounds s = some r)
    (enough : rounds ≤ more) : run body more s = some r := by
  induction rounds generalizing s more with
  | zero => cases done
  | succ rounds ih =>
    obtain ⟨more, rfl⟩ : ∃ k, more = k + 1 := ⟨more - 1, by omega⟩
    unfold run at done ⊢
    split at done
    · cases done
    · exact ih done (by omega)
    · exact done

theorem returns_iff {body : σ → Option (σ ⊕ ρ)} {s : σ} {r : ρ} :
    Returns (fun fuel => run body fuel s) r ↔ ∃ rounds, run body rounds s = some r := by
  constructor
  · rintro ⟨n, all⟩
    exact ⟨n, all n le_rfl⟩
  · rintro ⟨n, done⟩
    exact ⟨n, fun fuel enough => run_mono done enough⟩

section
variable {round : σ → σ ⊕ ρ} {s : σ}

/-- The loop goes on from one state with the other. -/
def Next (round : σ → σ ⊕ ρ) (s s' : σ) : Prop :=
  round s = .inl s'

/-- The loop comes from one state to the other. -/
abbrev Visits (round : σ → σ ⊕ ρ) : σ → σ → Prop :=
  Relation.ReflTransGen (Next round)

theorem run_none_of_next {s' : σ} (next : Next round s s') (never : ∀ n, run (fun t => some (round t)) n s = none) :
    ∀ n, run (fun t => some (round t)) n s' = none := by
  intro n
  have again := never (n + 1)
  rw [Next] at next
  simpa only [run, next] using again

theorem run_none_of_visits {t : σ} (visits : Visits round s t)
    (never : ∀ n, run (fun t => some (round t)) n s = none) : ∀ n, run (fun t => some (round t)) n t = none := by
  induction visits with
  | refl => exact never
  | tail _ next ih => exact run_none_of_next next ih

theorem never_of_visits {t : σ} (visits : Visits round s t)
    (never : ∀ n, run (fun t => some (round t)) n t = none) : ∀ n, run (fun t => some (round t)) n s = none := by
  induction visits using Relation.ReflTransGen.head_induction_on with
  | refl => exact never
  | head next _ ih =>
    intro n
    cases n with
    | zero => rfl
    | succ n =>
      rw [Next] at next
      simp only [run, next]
      exact ih n

/-- A state of a loop that does not end has a next one. -/
theorem exists_next_of_never (never : ∀ n, run (fun t => some (round t)) n s = none) : ∃ s', Next round s s' := by
  cases here : round s with
  | inl s' => exact ⟨s', here⟩
  | inr r =>
    have one := never 1
    simp only [run, here] at one
    cases one

/-- A loop that comes back to a state does not end from there. -/
theorem never_of_return {s' : σ} (next : Next round s s') (back : Visits round s' s) :
    ∀ n, run (fun t => some (round t)) n s = none := by
  -- With the least number of rounds after which it ended, it would have ended earlier.
  by_contra ends
  push Not at ends
  obtain ⟨n, some_⟩ := ends
  have shorter : ∀ n t u, Visits round t u → ∀ r, run (fun t => some (round t)) n t = some r →
      ∃ m, m ≤ n ∧ run (fun t => some (round t)) m u = some r := by
    intro n t u visits r done
    induction visits with
    | refl => exact ⟨n, le_rfl, done⟩
    | tail _ step ih =>
      obtain ⟨m, le, here⟩ := ih
      cases m with
      | zero => cases here
      | succ m =>
        rw [Next] at step
        simp only [run, step] at here
        exact ⟨m, by omega, here⟩
  induction n using Nat.strong_induction_on with
  | _ n ih =>
    obtain ⟨r, done⟩ := Option.ne_none_iff_exists'.mp some_
    cases n with
    | zero => cases done
    | succ n =>
      rw [Next] at next
      simp only [run, next] at done
      obtain ⟨m, le, here⟩ := shorter n s' s back r done
      exact ih m (by omega) (by rw [here]; exact Option.some_ne_none r)

/-- A loop with finitely many states in which it goes on, each of whose rounds makes progress or steps back, ends if and
only if it comes back to no state from which it steps back. -/
theorem ends_iff_no_return {back : σ → Prop} (key rank : σ → Nat) (bound : Nat)
    (bounded : ∀ t t', Visits round s t → Next round t t' → key t < bound)
    (apart : ∀ t u t' u', Visits round s t → Visits round s u → Next round t t' → Next round u u' →
      key t = key u → t = u)
    (progress : ∀ t t', Visits round s t → Next round t t' → back t ∨ rank t < rank t') :
    (∃ n, run (fun t => some (round t)) n s ≠ none) ↔
      ∀ t t', Visits round s t → back t → Next round t t' → ¬Visits round t' t := by
  constructor
  · rintro ⟨n, ends⟩ t t' visits _ next returns
    exact ends (never_of_visits visits (never_of_return next returns) n)
  · intro once
    by_contra ends
    push Not at ends
    -- The infinite sequence of the states; two of them are the same, and between them there is a step back.
    have further : ∀ t : {t // Visits round s t}, ∃ u : {u // Visits round s u}, Next round t.1 u.1 := by
      rintro ⟨t, visits⟩
      obtain ⟨u, next⟩ := exists_next_of_never (run_none_of_visits visits ends)
      exact ⟨⟨u, visits.tail next⟩, next⟩
    choose f step using further
    let state : Nat → {t // Visits round s t} := fun n => f^[n] ⟨s, .refl⟩
    have next : ∀ n, Next round (state n).1 (state (n + 1)).1 := by
      intro n
      have := step (state n)
      simpa only [state, Function.iterate_succ_apply'] using this
    have reaches : ∀ i j, i ≤ j → Visits round (state i).1 (state j).1 := by
      intro i j before
      induction j, before using Nat.le_induction with
      | base => exact .refl
      | succ j _ ih => exact ih.tail (next j)
    have small : ∀ n, key (state n).1 < bound := fun n => bounded _ _ (state n).2 (next n)
    obtain ⟨i, j, different, same⟩ := Finite.exists_ne_map_eq_of_infinite fun n => (⟨_, small n⟩ : Fin bound)
    have equal : ∀ i j, i < j → key (state i).1 = key (state j).1 → False := by
      intro i j before sameKey
      have again := apart _ _ _ _ (state i).2 (state j).2 (next i) (next j) sameKey
      have forward : ∀ k, i ≤ k → k < j → ¬back (state k).1 := by
        intro k after within isBack
        refine once _ _ (state k).2 isBack (next k) ?_
        exact (reaches (k + 1) j (by omega)).trans (again ▸ reaches i k after)
      have grows : ∀ k, i < k → k ≤ j → rank (state i).1 < rank (state k).1 := by
        intro k after
        induction k, after using Nat.le_induction with
        | base =>
          intro within
          exact (progress _ _ (state i).2 (next i)).resolve_left (forward i le_rfl (by omega))
        | succ k after ih =>
          intro within
          exact (ih (by omega)).trans
            ((progress _ _ (state k).2 (next k)).resolve_left (forward k (by omega) (by omega)))
      have less := grows j before le_rfl
      rw [again] at less
      exact lt_irrefl _ less
    have sameKey := congrArg Fin.val same
    rcases lt_or_gt_of_ne different with before | after
    · exact equal i j before sameKey
    · exact equal j i after sameKey.symm

end

end Loop

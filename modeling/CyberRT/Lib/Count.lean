import CyberRT.Lib.Threads
import Mathlib.Algebra.BigOperators.Pi
import Mathlib.Algebra.Order.BigOperators.Group.Finset

namespace Concur.Config
universe u v

variable {τ : Type u} {ℓ : Type v} [Fintype τ]

/-- What all threads have together of a quantity that each has some of. -/
def total (f : ℓ → Nat) (thread : τ → ℓ) : Nat :=
  ∑ t, f (thread t)

variable {f : ℓ → Nat} {thread : τ → ℓ}

theorem total_eq_zero : total f thread = 0 ↔ ∀ t, f (thread t) = 0 := by
  simp only [total, Finset.sum_eq_zero_iff, Finset.mem_univ, true_implies]

theorem le_total (f : ℓ → Nat) (thread : τ → ℓ) (t : τ) : f (thread t) ≤ total f thread :=
  Finset.single_le_sum (fun u _ => Nat.zero_le (f (thread u))) (Finset.mem_univ t)

variable [DecidableEq τ]

theorem total_eq_add (f : ℓ → Nat) (thread : τ → ℓ) (t : τ) :
    total f thread = f (thread t) + ∑ u ∈ Finset.univ.erase t, f (thread u) :=
  (Finset.add_sum_erase _ _ (Finset.mem_univ t)).symm

/-- The step of one thread changes the total by what it changes for that thread. -/
theorem total_update (f : ℓ → Nat) (thread : τ → ℓ) (t : τ) (l : ℓ) :
    total f (Function.update thread t l) + f (thread t) = total f thread + f l := by
  have others : ∑ u ∈ Finset.univ.erase t, f (Function.update thread t l u) =
      ∑ u ∈ Finset.univ.erase t, f (thread u) := by
    refine Finset.sum_congr rfl fun u member => ?_
    rw [Function.update_of_ne (Finset.ne_of_mem_erase member)]
  have before := total_eq_add f thread t
  have after := total_eq_add f (Function.update thread t l) t
  rw [Function.update_self, others] at after
  omega

theorem add_le_total (f : ℓ → Nat) (thread : τ → ℓ) {t u : τ} (different : u ≠ t) :
    f (thread t) + f (thread u) ≤ total f thread := by
  have member : u ∈ Finset.univ.erase t := Finset.mem_erase.mpr ⟨different, Finset.mem_univ u⟩
  have split := total_eq_add f thread t
  have below := Finset.single_le_sum (fun v _ => Nat.zero_le (f (thread v))) member
  omega

/-- A quantity of which the threads have one unit together belongs to one thread. -/
theorem total_eq_one (one : total f thread = 1) :
    ∃ t, f (thread t) = 1 ∧ ∀ u, u ≠ t → f (thread u) = 0 := by
  obtain ⟨t, some⟩ : ∃ t, f (thread t) ≠ 0 := by
    by_contra none
    have zero := total_eq_zero.mpr fun t => not_not.mp fun some => none ⟨t, some⟩
    omega
  have own := le_total f thread t
  refine ⟨t, by omega, fun u different => ?_⟩
  have both := add_le_total f thread different
  omega

/-- Different threads that each have some of a quantity are at most as many as the units there are. -/
theorem length_le_total {xs : List τ} (nodup : xs.Nodup) (some : ∀ t ∈ xs, 1 ≤ f (thread t)) :
    xs.length ≤ total f thread := by
  rw [← List.toFinset_card_of_nodup nodup, Finset.card_eq_sum_ones]
  calc ∑ _t ∈ xs.toFinset, 1 ≤ ∑ t ∈ xs.toFinset, f (thread t) :=
        Finset.sum_le_sum fun t member => some t (List.mem_toFinset.mp member)
    _ ≤ total f thread := Finset.sum_le_sum_of_subset (Finset.subset_univ _)

/-- Threads that have at most one unit each are at least as many as the units there are. -/
theorem total_le_length {xs : List τ} (single : ∀ t, f (thread t) ≤ 1) (listed : ∀ t, f (thread t) ≠ 0 → t ∈ xs) :
    total f thread ≤ xs.length := by
  have outside : ∀ t ∈ Finset.univ, t ∉ xs.toFinset → f (thread t) = 0 := by
    intro t _ absent
    by_contra some
    exact absent (List.mem_toFinset.mpr (listed t some))
  calc total f thread = ∑ t ∈ xs.toFinset, f (thread t) :=
        (Finset.sum_subset (Finset.subset_univ _) outside).symm
    _ ≤ ∑ _t ∈ xs.toFinset, 1 := Finset.sum_le_sum fun t _ => single t
    _ = xs.toFinset.card := (Finset.card_eq_sum_ones _).symm
    _ ≤ xs.length := xs.toFinset_card_le

end Concur.Config

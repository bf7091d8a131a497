import Mathlib.Logic.Basic
import Mathlib.Logic.Function.Basic

namespace Concur
universe u v w

/-- Test-and-set flags that exclude: whoever has taken a flag finds it set, and nobody else has taken it. -/
structure Exclusive {κ : Type u} {ι : Type v} (flag : κ → Bool) (holder : ι → Option κ) : Prop where
  set : ∀ i k, holder i = some k → flag k = true
  one : ∀ i j k, holder i = some k → holder j = some k → i = j

namespace Exclusive
variable {κ : Type u} {ι : Type v} {flag flag' : κ → Bool} {holder holder' : ι → Option κ}

/-- Nobody has taken a flag that is clear. -/
theorem free (exclusive : Exclusive flag holder) {k : κ} (clear : flag k = false) (i : ι) : holder i ≠ some k := by
  intro held
  have set := exclusive.set i k held
  rw [clear] at set
  cases set

/-- A step that takes and clears no flag. -/
theorem same (exclusive : Exclusive flag holder) (flags : ∀ k, flag' k = flag k) (holders : ∀ i, holder' i = holder i) :
    Exclusive flag' holder' where
  set i k held := by
    rw [flags]
    exact exclusive.set i k (holders i ▸ held)
  one i j k first second := exclusive.one i j k (holders i ▸ first) (holders j ▸ second)

/-- A thread that goes on with the flag it has, or without one. -/
theorem goes [DecidableEq ι] {ℓ : Type w} {f : ℓ → Option κ} {thread : ι → ℓ} {i : ι} {l : ℓ}
    (exclusive : Exclusive flag fun j => f (thread j)) (flags : ∀ k, flag' k = flag k) (has : f l = f (thread i)) :
    Exclusive flag' fun j => f (Function.update thread i l j) := by
  refine exclusive.same flags fun j => ?_
  by_cases same : j = i
  · rw [same, Function.update_self, has]
  · rw [Function.update_of_ne same]

/-- A step that touches one flag and one holder and leaves both as they were. -/
theorem keep (exclusive : Exclusive flag holder) {i : ι} {k : κ} (kept : flag' k = flag k)
    (flags : ∀ k', k' ≠ k → flag' k' = flag k') (has : holder' i = holder i)
    (holders : ∀ j, j ≠ i → holder' j = holder j) : Exclusive flag' holder' := by
  refine exclusive.same (fun k' => ?_) fun j => ?_
  · by_cases same : k' = k
    · rw [same, kept]
    · exact flags k' same
  · by_cases same : j = i
    · rw [same, has]
    · exact holders j same

/-- A test-and-set that finds the flag clear. -/
theorem acquire (exclusive : Exclusive flag holder) {i : ι} {k : κ} (clear : flag k = false) (set : flag' k = true)
    (flags : ∀ k', k' ≠ k → flag' k' = flag k') (taken : holder' i = some k)
    (holders : ∀ j, j ≠ i → holder' j = holder j) : Exclusive flag' holder' := by
  have mine : ∀ j k', holder' j = some k' → (j = i ∧ k' = k) ∨ (j ≠ i ∧ k' ≠ k ∧ holder j = some k') := by
    intro j k' held
    by_cases self : j = i
    · subst self
      rw [taken] at held
      exact .inl ⟨rfl, (Option.some.inj held).symm⟩
    · rw [holders j self] at held
      refine .inr ⟨self, ?_, held⟩
      rintro rfl
      exact exclusive.free clear j held
  refine ⟨fun j k' held => ?_, fun j l k' first second => ?_⟩
  · rcases mine j k' held with ⟨-, rfl⟩ | ⟨-, different, before⟩
    · exact set
    · rw [flags k' different]
      exact exclusive.set j k' before
  · rcases mine j k' first with ⟨rfl, same⟩ | ⟨-, different, before⟩
    · rcases mine l k' second with ⟨rfl, -⟩ | ⟨-, different, -⟩
      · rfl
      · exact absurd same different
    · rcases mine l k' second with ⟨-, same⟩ | ⟨-, -, after⟩
      · exact absurd same different
      · exact exclusive.one j l k' before after

/-- Whoever has taken a flag clears it. -/
theorem release (exclusive : Exclusive flag holder) {i : ι} {k : κ} (held : holder i = some k)
    (flags : ∀ k', k' ≠ k → flag' k' = flag k') (gone : holder' i = none)
    (holders : ∀ j, j ≠ i → holder' j = holder j) : Exclusive flag' holder' := by
  have before : ∀ j k', holder' j = some k' → k' ≠ k ∧ holder j = some k' := by
    intro j k' after
    have other : j ≠ i := by
      rintro rfl
      rw [gone] at after
      cases after
    rw [holders j other] at after
    refine ⟨?_, after⟩
    rintro rfl
    exact other (exclusive.one j i _ after held)
  refine ⟨fun j k' after => ?_, fun j l k' first second => ?_⟩
  · obtain ⟨different, old⟩ := before j k' after
    rw [flags k' different]
    exact exclusive.set j k' old
  · exact exclusive.one j l k' (before j k' first).2 (before l k' second).2

end Exclusive

end Concur

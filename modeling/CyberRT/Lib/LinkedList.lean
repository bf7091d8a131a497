import Mathlib.Data.List.Basic
import Mathlib.Logic.Function.Basic

namespace Concur
universe u
variable {α : Type u}

/-- Following `next` from `head` visits exactly the cells of the list and ends at the null
pointer. -/
inductive Linked (next : α → Option α) : Option α → List α → Prop
  | nil : Linked next none []
  | cons {x : α} {xs : List α} : Linked next (next x) xs → Linked next (some x) (x :: xs)

namespace Linked
variable {next : α → Option α} {head : Option α} {x : α} {xs ys : List α}

theorem cons_inv (linked : Linked next (some x) xs) : ∃ tail, xs = x :: tail ∧ Linked next (next x) tail := by
  cases linked with
  | cons rest => exact ⟨_, rfl, rest⟩

theorem unique (first : Linked next head xs) (second : Linked next head ys) : xs = ys := by
  induction first generalizing ys with
  | nil => cases second; rfl
  | cons _ ih =>
    obtain ⟨tail, rfl, rest⟩ := second.cons_inv
    rw [ih rest]

/-- Every cell of a linked list is the start of a linked suffix of it. -/
theorem suffix (linked : Linked next head xs) (member : x ∈ xs) :
    ∃ ys, ys <:+ xs ∧ Linked next (some x) ys := by
  induction linked with
  | nil => cases member
  | @cons y tail rest ih =>
    rcases List.mem_cons.mp member with rfl | inTail
    · exact ⟨x :: tail, List.suffix_refl _, .cons rest⟩
    · obtain ⟨ys, shorter, below⟩ := ih inTail
      exact ⟨ys, shorter.trans (List.suffix_cons _ _), below⟩

/-- A linked list that ends is free of cycles: a cell met twice would start two suffixes of
different length. -/
theorem nodup (linked : Linked next head xs) : xs.Nodup := by
  induction linked with
  | nil => exact List.nodup_nil
  | @cons y tail rest ih =>
    refine List.nodup_cons.mpr ⟨fun again => ?_, ih⟩
    obtain ⟨ys, shorter, below⟩ := rest.suffix again
    have same := unique below (.cons rest)
    have length := shorter.length_le
    rw [same, List.length_cons] at length
    omega

/-- Writing the pointer of a cell outside the list leaves the list as it is. -/
theorem update [DecidableEq α] {value : Option α} (linked : Linked next head xs) (outside : x ∉ xs) :
    Linked (Function.update next x value) head xs := by
  induction linked with
  | nil => exact .nil
  | @cons y tail rest ih =>
    rw [List.mem_cons, not_or] at outside
    refine .cons ?_
    rw [Function.update_of_ne (Ne.symm outside.1)]
    exact ih outside.2

end Linked

end Concur

import CyberRT.Lib.LinkedList
import Mathlib.Order.Lattice

namespace Concur
universe u v
variable {α : Type u} {κ : Type v} [LinearOrder κ]

/-- A linked list sorted by `key`, given by its cells and by the pointer of each: `next none` is that of the head. No
cell is passed over: where one lies above a place, the pointer there leads to one that is not above it. -/
structure SortedChain (key : α → κ) (cell : α → Prop) (next : Option α → Option α) : Prop where
  inj : ∀ a b, cell a → cell b → key a = key b → a = b
  up : ∀ p t, (∀ a ∈ p, cell a) → next p = some t → cell t ∧ ∀ a ∈ p, key a < key t
  gap : ∀ p e, (∀ a ∈ p, cell a) → cell e → (∀ a ∈ p, key a < key e) → ∃ t, next p = some t ∧ key t ≤ key e

namespace SortedChain
variable {key : α → κ} {cell : α → Prop} {next : Option α → Option α}

theorem empty (key : α → κ) : SortedChain key (fun _ => False) fun _ => none where
  inj _ _ absurd := absurd.elim
  up _ _ _ points := by cases points
  gap _ _ _ absurd := absurd.elim

/-- Only the pointers of the cells and of the head count. -/
theorem congr {cell' : α → Prop} {key' : α → κ} {next' : Option α → Option α} (chain : SortedChain key cell next)
    (cells : ∀ a, cell' a ↔ cell a) (keys : ∀ a, cell a → key' a = key a)
    (pointers : ∀ p, (∀ a ∈ p, cell a) → next' p = next p) : SortedChain key' cell' next' := by
  have place : ∀ {p : Option α}, (∀ a ∈ p, cell' a) → ∀ a ∈ p, cell a := fun here a member =>
    (cells a).mp (here a member)
  refine ⟨fun a b first second same => ?_, fun p t here points => ?_, fun p e here member below => ?_⟩
  · rw [keys a ((cells a).mp first), keys b ((cells b).mp second)] at same
    exact chain.inj a b ((cells a).mp first) ((cells b).mp second) same
  · rw [pointers p (place here)] at points
    obtain ⟨member, above⟩ := chain.up p t (place here) points
    refine ⟨(cells t).mpr member, fun a within => ?_⟩
    rw [keys a (place here a within), keys t member]
    exact above a within
  · have member := (cells e).mp member
    obtain ⟨t, points, le⟩ := chain.gap p e (place here) member fun a within => by
      simpa only [keys a (place here a within), keys e member] using below a within
    refine ⟨t, (pointers p (place here)).trans points, ?_⟩
    rw [keys t (chain.up p t (place here) points).1, keys e member]
    exact le

/-- A place below `k` whose pointer leads above `k`, or nowhere, shows that `k` is not in the list. -/
theorem absent (chain : SortedChain key cell next) {p : Option α} {k : κ} (here : ∀ a ∈ p, cell a)
    (below : ∀ a ∈ p, key a < k) (above : ∀ t ∈ next p, k < key t) {e : α} (member : cell e) : key e ≠ k := by
  rintro rfl
  obtain ⟨t, points, le⟩ := chain.gap p e here member below
  exact absurd le (not_le.mpr (above t points))

/-- A new cell is linked in between a place below it and the cell to which that led. -/
theorem insert [DecidableEq α] (chain : SortedChain key cell next) {p : Option α} {n : α} (here : ∀ a ∈ p, cell a)
    (new : ¬cell n) (below : ∀ a ∈ p, key a < key n) (above : ∀ t ∈ next p, key n < key t)
    (points : next (some n) = next p) :
    SortedChain key (fun a => cell a ∨ a = n) (Function.update next p (some n)) := by
  have fresh : ∀ {e}, cell e → key e ≠ key n := fun member => chain.absent here below above member
  have apart : some n ≠ p := by
    rintro rfl
    exact new (here n rfl)
  -- a place other than `n` is one of the old list
  have old : ∀ {q : Option α}, (∀ a ∈ q, cell a ∨ a = n) → q ≠ some n → ∀ a ∈ q, cell a := by
    rintro q within different a rfl
    exact (within a rfl).resolve_right fun same => different (congrArg some same)
  refine ⟨?_, fun q t within leads => ?_, fun q e within member lower => ?_⟩
  · rintro a b (first | rfl) (second | rfl) same
    · exact chain.inj a b first second same
    · exact absurd same (fresh first)
    · exact absurd same.symm (fresh second)
    · rfl
  · by_cases atPlace : q = p
    · subst atPlace
      rw [Function.update_self] at leads
      cases leads
      exact ⟨.inr rfl, below⟩
    rw [Function.update_of_ne atPlace] at leads
    by_cases atNew : q = some n
    · subst atNew
      rw [points] at leads
      refine ⟨.inl (chain.up p t here leads).1, ?_⟩
      rintro a ⟨⟩
      exact above t leads
    · obtain ⟨member, higher⟩ := chain.up q t (old within atNew) leads
      exact ⟨.inl member, higher⟩
  · by_cases atPlace : q = p
    · subst atPlace
      refine ⟨n, Function.update_self .., ?_⟩
      rcases member with member | rfl
      · obtain ⟨t, leads, le⟩ := chain.gap q e here member lower
        exact (above t leads).le.trans le
      · exact le_rfl
    rw [Function.update_of_ne atPlace]
    by_cases atNew : q = some n
    · subst atNew
      have higher : key n < key e := lower n rfl
      rcases member with member | rfl
      · rw [points]
        exact chain.gap p e here member fun a within => (below a within).trans higher
      · exact absurd higher (lt_irrefl _)
    have there := old within atNew
    rcases member with member | rfl
    · exact chain.gap q e there member lower
    -- the place `q` is below the place `p`, for else it would lie above what follows `p`
    · have before : ∃ a ∈ p, ∀ b ∈ q, key b < key a := by
        by_contra none
        push Not at none
        obtain ⟨b, inside⟩ : ∃ b, q = some b := by
          cases q with
          | some b => exact ⟨b, rfl⟩
          | none =>
            cases p with
            | none => exact absurd rfl atPlace
            | some a =>
              obtain ⟨b, ⟨⟩, -⟩ := none a rfl
        subst inside
        have after : ∀ a ∈ p, key a < key b := by
          rintro a rfl
          obtain ⟨b', ⟨⟩, le⟩ := none a rfl
          refine lt_of_le_of_ne le fun same => atPlace ?_
          rw [chain.inj a b (here a rfl) (there b rfl) same]
        obtain ⟨t, leads, le⟩ := chain.gap p b here (there b rfl) after
        exact absurd ((above t leads).trans_le le) (lt_asymm (lower b rfl))
      obtain ⟨a, atP, higher⟩ := before
      obtain ⟨t, leads, le⟩ := chain.gap q a there (here a atP) higher
      exact ⟨t, leads, le.trans (below a atP).le⟩

/-- What follows a place: finitely many cells that strictly increase, all those above the place. -/
theorem exists_linked [DecidableEq α] (chain : SortedChain key cell next) {p : Option α} (here : ∀ a ∈ p, cell a)
    (all : List α) (finite : ∀ a, cell a → (∀ b ∈ p, key b < key a) → a ∈ all) :
    ∃ es, Linked (fun a => next (some a)) (next p) es ∧ es.Pairwise (key · < key ·) ∧
      ∀ a, a ∈ es ↔ cell a ∧ ∀ b ∈ p, key b < key a := by
  induction size : all.length generalizing p all with
  | zero =>
    obtain rfl := List.length_eq_zero_iff.mp size
    have nothing : next p = none := by
      by_contra points
      obtain ⟨t, points⟩ := Option.ne_none_iff_exists'.mp points
      obtain ⟨member, higher⟩ := chain.up p t here points
      exact absurd (finite t member higher) List.not_mem_nil
    rw [nothing]
    refine ⟨[], .nil, .nil, fun a => ⟨fun member => absurd member List.not_mem_nil, fun ⟨member, higher⟩ => ?_⟩⟩
    exact finite a member higher
  | succ size' ih =>
    cases points : next p with
    | none =>
      refine ⟨[], .nil, .nil, fun a => ⟨fun member => absurd member List.not_mem_nil, fun ⟨member, higher⟩ => ?_⟩⟩
      obtain ⟨t, leads, -⟩ := chain.gap p a here member higher
      cases points.symm.trans leads
    | some t =>
      obtain ⟨member, higher⟩ := chain.up p t here points
      have rest : ∀ a, cell a → (∀ b ∈ some t, key b < key a) → a ∈ all.erase t := by
        intro a cell above
        have above := above t rfl
        refine (List.mem_erase_of_ne ?_).mpr (finite a cell fun b within => (higher b within).trans above)
        rintro rfl
        exact lt_irrefl _ above
      obtain ⟨es, linked, sorted, exact⟩ := ih (p := some t) (by rintro a ⟨⟩; exact member) (all.erase t) rest
        (by rw [List.length_erase_of_mem (finite t member higher), size]; rfl)
      refine ⟨t :: es, .cons linked, List.pairwise_cons.mpr ⟨fun a within => ((exact a).mp within).2 t rfl, sorted⟩,
        fun a => ?_⟩
      rw [List.mem_cons, exact]
      refine ⟨?_, fun ⟨cell, above⟩ => ?_⟩
      · rintro (rfl | ⟨cell, above⟩)
        · exact ⟨member, higher⟩
        · exact ⟨cell, fun b within => (higher b within).trans (above t rfl)⟩
      · obtain ⟨t', leads, le⟩ := chain.gap p a here cell above
        obtain rfl := Option.some.inj (points.symm.trans leads)
        rcases le.lt_or_eq with lt | same
        · refine .inr ⟨cell, ?_⟩
          rintro b ⟨⟩
          exact lt
        · exact .inl (chain.inj a t cell member same.symm)

end SortedChain

end Concur

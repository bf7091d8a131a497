import Mathlib.Algebra.BigOperators.Group.List.Basic
import Mathlib.Algebra.Group.Nat.Defs
import Mathlib.Data.List.AList

namespace Concur
universe u v w

/-- A finite map from keys to values of one type, such as an unordered map of a standard library. -/
abbrev Table (κ : Type u) (β : Type v) : Type (max u v) :=
  AList fun _ : κ => β

namespace Table
variable {κ : Type u} {β : Type v} [DecidableEq κ]

/-- The value at a key, the default value if the key is absent. -/
def get [Inhabited β] (m : Table κ β) (k : κ) : β :=
  (m.lookup k).getD default

/-- The number of keys. -/
def size (m : Table κ β) : Nat :=
  m.entries.length

theorem lookup_insert_eq (m : Table κ β) (k k' : κ) (x : β) :
    (m.insert k x).lookup k' = if k' = k then some x else m.lookup k' := by
  by_cases same : k' = k
  · subst same
    rw [AList.lookup_insert, if_pos rfl]
  · rw [AList.lookup_insert_ne same, if_neg same]

theorem lookup_erase_eq (m : Table κ β) (k k' : κ) :
    (m.erase k).lookup k' = if k' = k then none else m.lookup k' := by
  by_cases same : k' = k
  · subst same
    rw [AList.lookup_erase, if_pos rfl]
  · rw [AList.lookup_erase_ne same, if_neg same]

theorem mem_iff_lookup {m : Table κ β} {k : κ} : k ∈ m ↔ ∃ x, m.lookup k = some x := by
  rw [← AList.lookup_isSome, Option.isSome_iff_exists]

theorem mem_entries_iff {m : Table κ β} {k : κ} {x : β} : ⟨k, x⟩ ∈ m.entries ↔ m.lookup k = some x :=
  AList.mem_lookup_iff.symm

omit [DecidableEq κ] in
theorem entries_nodup (m : Table κ β) : m.entries.Nodup :=
  List.NodupKeys.nodup m.nodupKeys

/-- The table that a function makes of every entry, which it may drop. -/
def filterMap {γ : Type w} (f : κ → β → Option γ) (m : Table κ β) : Table κ γ where
  entries := m.entries.filterMap fun item => (f item.1 item.2).map (Sigma.mk item.1)
  nodupKeys := by
    refine List.nodupKeys_iff_pairwise.mpr (List.Pairwise.filterMap _ ?_ (List.nodupKeys_iff_pairwise.mp m.nodupKeys))
    intro a b different a' fromA b' fromB
    obtain ⟨x, -, rfl⟩ := Option.map_eq_some_iff.mp fromA
    obtain ⟨y, -, rfl⟩ := Option.map_eq_some_iff.mp fromB
    exact different

theorem lookup_filterMap {γ : Type w} (f : κ → β → Option γ) (m : Table κ β) (k : κ) :
    (m.filterMap f).lookup k = (m.lookup k).bind (f k) := by
  refine Option.ext fun y => ?_
  rw [← mem_entries_iff, Option.bind_eq_some_iff]
  simp only [filterMap, List.mem_filterMap]
  constructor
  · rintro ⟨item, member, made⟩
    obtain ⟨z, made, same⟩ := Option.map_eq_some_iff.mp made
    cases same
    exact ⟨item.2, mem_entries_iff.mp member, made⟩
  · rintro ⟨x, found, made⟩
    exact ⟨⟨k, x⟩, mem_entries_iff.mpr found, by rw [made, Option.map_some]⟩

/-- The table with the value at one key changed, if there is one. -/
def modify (m : Table κ β) (k : κ) (f : β → β) : Table κ β :=
  m.filterMap fun k' x => some (if k' = k then f x else x)

theorem lookup_modify (m : Table κ β) (k k' : κ) (f : β → β) :
    (m.modify k f).lookup k' = if k' = k then (m.lookup k').map f else m.lookup k' := by
  rw [modify, lookup_filterMap]
  split
  · rw [Option.map_eq_bind]
    rfl
  · exact Option.bind_fun_some _

omit [DecidableEq κ] in
/-- Lists gathered per key have no repetition if each has none and its members tell the key. -/
theorem nodup_flatMap {γ : Type w} {m : Table κ β} {f : (Sigma fun _ : κ => β) → List γ} (key : γ → κ)
    (tagged : ∀ item ∈ m.entries, ∀ y ∈ f item, key y = item.1) (each : ∀ item ∈ m.entries, (f item).Nodup) :
    (m.entries.flatMap f).Nodup := by
  refine List.nodup_flatMap.mpr ⟨each, ?_⟩
  have apart := List.nodupKeys_iff_pairwise.mp m.nodupKeys
  refine apart.imp_of_mem fun {a b} first second different => ?_
  intro y inFirst inSecond
  exact different ((tagged a first y inFirst).symm.trans (tagged b second y inSecond))

/-- Sorting a list by a key and gathering the parts gives the list back, up to the order. -/
theorem perm_flatMap_filter {γ : Type w} (f : γ → κ) {keys : List κ} (nodup : keys.Nodup) {xs : List γ}
    (covered : ∀ x ∈ xs, f x ∈ keys) : (keys.flatMap fun k => xs.filter fun x => f x = k).Perm xs := by
  induction keys generalizing xs with
  | nil =>
    have none : xs = [] := List.eq_nil_iff_forall_not_mem.mpr fun x member => absurd (covered x member) (by simp)
    rw [none]
    exact .nil
  | cons k keys ih =>
    obtain ⟨absent, tail⟩ := List.nodup_cons.mp nodup
    have others : ∀ x ∈ xs.filter fun x => !decide (f x = k), f x ∈ keys := by
      intro x member
      obtain ⟨inside, other⟩ := List.mem_filter.mp member
      exact (List.mem_cons.mp (covered x inside)).resolve_left (by simpa using other)
    have same : (keys.flatMap fun k' => (xs.filter fun x => !decide (f x = k)).filter fun x => f x = k') =
        keys.flatMap fun k' => xs.filter fun x => f x = k' := by
      refine List.flatMap_congr fun k' member => ?_
      rw [List.filter_filter]
      refine List.filter_congr fun x _ => ?_
      by_cases hit : f x = k'
      · have other : f x ≠ k := fun here => absent (here ▸ hit ▸ member)
        simp [hit, hit ▸ other]
      · simp [hit]
    rw [List.flatMap_cons, ← same]
    exact ((ih tail others).append_left _).trans (List.filter_append_perm _ xs)

/-- Summing over the keys, each as often as it occurs, is summing over the list. -/
theorem sum_countP {γ : Type w} {M : Type*} [AddCommMonoid M] (f : γ → κ) (weight : κ → M) {keys : List κ}
    (nodup : keys.Nodup) {xs : List γ} (covered : ∀ x ∈ xs, f x ∈ keys) :
    (keys.map fun k => (xs.countP fun x => f x = k) • weight k).sum = (xs.map fun x => weight (f x)).sum := by
  rw [← ((perm_flatMap_filter f nodup covered).map fun x => weight (f x)).sum_eq, List.map_flatMap, List.flatMap_def,
    List.sum_flatten, List.map_map]
  congr 1
  refine List.map_congr_left fun k _ => ?_
  have same : ((xs.filter fun x => f x = k).map fun x => weight (f x)) =
      List.replicate (xs.countP fun x => f x = k) (weight k) := by
    rw [List.eq_replicate_iff, List.length_map, List.countP_eq_length_filter]
    refine ⟨rfl, fun y member => ?_⟩
    obtain ⟨x, inside, rfl⟩ := List.mem_map.mp member
    have hit : f x = k := by simpa using (List.mem_filter.mp inside).2
    rw [hit]
  rw [Function.comp_apply, same, List.sum_replicate]

variable [Inhabited β]

theorem get_empty (k : κ) : Table.get (∅ : Table κ β) k = default := rfl

theorem get_insert_eq (m : Table κ β) (k k' : κ) (x : β) :
    Table.get (m.insert k x) k' = if k' = k then x else m.get k' := by
  unfold get
  rw [lookup_insert_eq]
  split <;> rfl

theorem get_erase_eq (m : Table κ β) (k k' : κ) :
    Table.get (m.erase k) k' = if k' = k then default else m.get k' := by
  unfold get
  rw [lookup_erase_eq]
  split <;> rfl

theorem get_of_notMem {m : Table κ β} {k : κ} (absent : k ∉ m) : m.get k = default := by
  rw [get, AList.lookup_eq_none.mpr absent, Option.getD_none]

theorem get_of_lookup {m : Table κ β} {k : κ} {x : β} (found : m.lookup k = some x) : m.get k = x := by
  rw [get, found, Option.getD_some]

theorem get_of_mem_entries {m : Table κ β} {k : κ} {x : β} (member : ⟨k, x⟩ ∈ m.entries) : m.get k = x :=
  get_of_lookup (mem_entries_iff.mp member)

/-- An entry that holds a table may as well be erased when the table is empty. -/
theorem get_store {κ' : Type u} {β' : Type v} (m : Table κ (Table κ' β')) (k k' : κ) (x : Table κ' β') :
    Table.get (if x.entries.isEmpty then m.erase k else m.insert k x) k' = if k' = k then x else m.get k' := by
  split
  · rename_i none
    have empty : x = ∅ := AList.ext (List.isEmpty_iff.mp none)
    rw [get_erase_eq, empty]
    rfl
  · exact get_insert_eq m k k' x

end Table

end Concur

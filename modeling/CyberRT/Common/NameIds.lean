import CyberRT.Common.GlobalData
import Mathlib.Data.List.Perm.Subperm

namespace CyberRT
open Concur

namespace IdMap
variable {hash : String → UInt64} {map map' map'' : IdMap} {name : String} {key : UInt64}

/-- Every name that has an id keeps it. -/
def Grows (map map' : IdMap) : Prop :=
  ∀ id name, map.lookup id = some name → map'.lookup id = some name

theorem Grows.refl (map : IdMap) : map.Grows map :=
  fun _ _ found => found

theorem Grows.trans (first : map.Grows map') (second : map'.Grows map'') : map.Grows map'' :=
  fun id name found => second id name (first id name found)

theorem Grows.size_le (grows : map.Grows map') : map.size ≤ map'.size := by
  have inside : map.keys ⊆ map'.keys := by
    intro id member
    obtain ⟨name, found⟩ := Table.mem_iff_lookup.mp (AList.mem_keys.mpr member)
    exact AList.mem_keys.mp (Table.mem_iff_lookup.mpr ⟨name, grows id name found⟩)
  have shorter := (List.subperm_of_subset map.keys_nodup inside).length_le
  simpa [AList.keys, List.keys, Table.size] using shorter

/-- The search ends at an id that is free or the name's own. -/
theorem probe_end {fuel : Nat} {id : UInt64} (found : map.probe name fuel id = some key) :
    map.lookup key = none ∨ map.lookup key = some name := by
  induction fuel generalizing id with
  | zero => cases found
  | succ fuel ih =>
    cases taken : map.lookup id with
    | none =>
      simp only [probe, taken, Option.some.injEq] at found
      exact .inl (found ▸ taken)
    | some other =>
      by_cases same : name = other
      · simp only [probe, taken, same, if_true, Option.some.injEq] at found
        exact .inr (found ▸ same ▸ taken)
      · simp only [probe, taken, if_neg same] at found
        exact ih found

/-- The search for a name that has got its id takes the same way in a larger map. -/
theorem Grows.probe (grows : map.Grows map') (registered : map'.lookup key = some name) {fuel fuel' : Nat}
    (enough : fuel ≤ fuel') {id : UInt64} (found : map.probe name fuel id = some key) :
    map'.probe name fuel' id = some key := by
  induction fuel generalizing fuel' id with
  | zero => cases found
  | succ fuel ih =>
    obtain ⟨fuel', rfl⟩ : ∃ n, fuel' = n + 1 := ⟨fuel' - 1, by omega⟩
    cases taken : map.lookup id with
    | none =>
      simp only [IdMap.probe, taken, Option.some.injEq] at found
      subst found
      simp [IdMap.probe, registered]
    | some other =>
      by_cases same : name = other
      · subst same
        simp only [IdMap.probe, taken, if_true, Option.some.injEq] at found
        subst found
        simp [IdMap.probe, registered]
      · simp only [IdMap.probe, taken, if_neg same] at found
        simp only [IdMap.probe, grows id other taken, if_neg same]
        exact ih (by omega) found

theorem register_grows (registered : map.register hash name = some (key, map')) :
    map.Grows map' ∧ map'.lookup key = some name := by
  obtain ⟨id, found, stored⟩ := Option.bind_eq_some_iff.mp registered
  cases stored
  refine ⟨fun id' other known => ?_, AList.lookup_insert map⟩
  rw [Table.lookup_insert_eq]
  split
  · rename_i here
    subst here
    rcases probe_end found with free | own
    · rw [free] at known
      cases known
    · rw [← known, own]
  · exact known

/-- A name keeps the id of its first registration. -/
theorem register_again (registered : map.register hash name = some (key, map')) (grows : map'.Grows map'') :
    map''.register hash name = some (key, map''.insert key name) := by
  obtain ⟨before, known⟩ := register_grows registered
  obtain ⟨id, found, stored⟩ := Option.bind_eq_some_iff.mp registered
  cases stored
  have bigger := (before.trans grows).size_le
  have again := (before.trans grows).probe (grows _ _ known) (Nat.succ_le_succ bigger) found
  simp [IdMap.register, again]

end IdMap

end CyberRT

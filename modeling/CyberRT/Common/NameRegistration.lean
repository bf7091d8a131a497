import CyberRT.Base.AtomicHashMapInv
import CyberRT.Common.NameIds
import CyberRT.Common.NameTables
import Mathlib.Data.Finset.Card

namespace CyberRT
open Concur

namespace IdMap
variable {hash : String → UInt64} {map map' : IdMap} {name : String}

/-- A search that comes to no end has found other names at all ids it tried. -/
theorem taken_of_probe_none {fuel : Nat} {id : UInt64} (lost : map.probe name fuel id = none) :
    ∀ j < fuel, id + UInt64.ofNat j ∈ map.keys := by
  induction fuel generalizing id with
  | zero => simp
  | succ fuel ih =>
    cases taken : map.lookup id with
    | none => simp [probe, taken] at lost
    | some other =>
      have here : id ∈ map.keys := AList.mem_keys.mp (Table.mem_iff_lookup.mpr ⟨other, taken⟩)
      have differs : name ≠ other := by
        rintro rfl
        simp [probe, taken] at lost
      simp only [probe, taken, if_neg differs] at lost
      intro j bound
      cases j with
      | zero => simpa using here
      | succ j =>
        have next := ih lost j (by omega)
        have sum : id + 1 + UInt64.ofNat j = id + UInt64.ofNat (j + 1) := by
          rw [UInt64.ofNat_add, UInt64.add_assoc, UInt64.add_comm (UInt64.ofNat j)]
          rfl
        rwa [sum] at next

/-- Unless all ids are taken, the search ends. -/
theorem probe_some (free : map.size < 2 ^ 64) (name : String) (id : UInt64) :
    ∃ key, map.probe name (map.size + 1) id = some key := by
  rw [← Option.ne_none_iff_exists']
  intro lost
  have taken := taken_of_probe_none lost
  -- The ids that were tried are more than there are in the map.
  have tried : ((List.range (map.size + 1)).map fun j => id + UInt64.ofNat j).Nodup := by
    refine List.Nodup.map_on ?_ List.nodup_range
    intro i first j second same
    have small : ∀ k ∈ List.range (map.size + 1), k % 2 ^ 64 = k := fun k member =>
      Nat.mod_eq_of_lt (by have := List.mem_range.mp member; omega)
    have value := congrArg UInt64.toNat (UInt64.add_right_inj id |>.mp same)
    rwa [UInt64.toNat_ofNat', UInt64.toNat_ofNat', small i first, small j second] at value
  have inside : ((List.range (map.size + 1)).map fun j => id + UInt64.ofNat j) ⊆ map.keys := by
    intro key member
    obtain ⟨j, bound, rfl⟩ := List.mem_map.mp member
    exact taken j (List.mem_range.mp bound)
  have count := (List.subperm_of_subset tried inside).length_le
  simp only [AList.keys, List.keys, Table.size, List.length_map, List.length_range] at count
  omega

theorem register_some (free : map.size < 2 ^ 64) (hash : String → UInt64) (name : String) :
    ∃ id, map.register hash name = some (id, map.insert id name) := by
  obtain ⟨id, found⟩ := probe_some free name (hash name)
  exact ⟨id, by simp [register, found]⟩

/-- A name that has its id keeps it when the map grows. -/
theorem Grows.register {map'' : IdMap} {key : UInt64} (grows : map.Grows map'') (known : map.lookup key = some name)
    (registered : map.register hash name = some (key, map')) :
    map''.register hash name = some (key, map''.insert key name) := by
  refine register_again registered fun id other found => ?_
  obtain ⟨id', _, stored⟩ := Option.bind_eq_some_iff.mp registered
  cases stored
  rw [Table.lookup_insert_eq] at found
  split at found
  · rename_i here
    rw [here, ← found]
    exact grows key name known
  · exact grows id other found

/-- No name has two ids. -/
def Single (map : IdMap) : Prop :=
  ∀ id id' name, map.lookup id = some name → map.lookup id' = some name → id = id'

/-- A map has no more ids than there are names with an id. -/
theorem Single.size_le (single : map.Single) {names : Finset String}
    (within : ∀ id name, map.lookup id = some name → name ∈ names) : map.size ≤ names.card := by
  have total : ∀ id ∈ map.keys.toFinset, ∃ name, map.lookup id = some name := by
    intro id member
    exact Table.mem_iff_lookup.mp (AList.mem_keys.mpr (List.mem_toFinset.mp member))
  choose! nameOf named using total
  have fits : map.keys.toFinset.card ≤ names.card := by
    refine Finset.card_le_card_of_injOn nameOf (fun id member => within id _ (named id member)) ?_
    intro id first id' second same
    exact single id id' _ (named id first) (same ▸ named id' second)
  rw [List.toFinset_card_of_nodup map.keys_nodup] at fits
  simpa [AList.keys, List.keys, Table.size] using fits

end IdMap

namespace NameTables

def kEmptyString : String := ""

/-- The lookup of an id: `GetNodeById`, `GetChannelById`, `GetServiceById`, `GetTaskNameById`. -/
def getById (gd : NameTables) (id : UInt64) (kind : NameKind) : String :=
  ((gd.idMap kind).lookup id).getD kEmptyString

/-- The table of one kind is what a call of its `Register` function changes. -/
theorem register_cases {gd gd' : NameTables} {hash : String → UInt64} {name : String} {kind : NameKind} {id : UInt64}
    (registered : gd.register hash name kind = some (id, gd')) :
    ∃ map, (gd.idMap kind).register hash name = some (id, map) ∧ gd' = gd.setIdMap map kind := by
  cases found : (gd.idMap kind).register hash name with
  | none => cases kind <;> simp_all [register, GlobalData.registerNode, GlobalData.registerChannel, registerService,
      registerTaskName, idMap]
  | some r =>
    rw [register_eq_some found] at registered
    cases registered
    exact ⟨r.2, rfl, rfl⟩

end NameTables

/-- The tables of a process, with the ids that its `Register` calls gave. `issued` is a history. -/
structure Registrar where
  tables : NameTables
  issued : List IssuedId

namespace Registrar

def machine (hash : String → UInt64) : Machine Registrar (NameKind × String) where
  init := ⟨.empty, []⟩
  step s call :=
    (s.tables.register hash call.2 call.1).map fun r => ⟨r.2, s.issued ++ [⟨call.1, call.2, r.1⟩]⟩

/-- The names of one kind that are registered by some calls. -/
def namesOf (kind : NameKind) (calls : List (NameKind × String)) : Finset String :=
  ((calls.filter fun call => call.1 = kind).map Prod.snd).toFinset

/-- What was issued is what the tables hold, and a name that is registered again gets what it got. -/
structure Inv (hash : String → UInt64) (s : Registrar) : Prop where
  known : ∀ a ∈ s.issued, (s.tables.idMap a.kind).lookup a.id = some a.name
  again : ∀ a ∈ s.issued, ∃ map, (s.tables.idMap a.kind).register hash a.name = some (a.id, map)
  issued : ∀ kind id name, (s.tables.idMap kind).lookup id = some name → ⟨kind, name, id⟩ ∈ s.issued

variable {hash : String → UInt64} {s : Registrar}

theorem inv_init : Inv hash (machine hash).init := by
  refine ⟨fun a member => absurd member List.not_mem_nil, fun a member => absurd member List.not_mem_nil, ?_⟩
  intro kind id name found
  rw [show (machine hash).init.tables = .empty from rfl, NameTables.idMap_empty] at found
  cases found

/-- Two ids are the same if and only if they are those of one name. -/
theorem Inv.same_iff (inv : Inv hash s) {a b : IssuedId} (first : a ∈ s.issued) (second : b ∈ s.issued)
    (kind : a.kind = b.kind) : a.id = b.id ↔ a.name = b.name := by
  constructor
  · intro same
    have found := inv.known a first
    rw [kind, same, inv.known b second] at found
    exact (Option.some.inj found).symm
  · intro same
    obtain ⟨map, registered⟩ := inv.again a first
    obtain ⟨map', registered'⟩ := inv.again b second
    rw [kind, same, registered'] at registered
    exact (congrArg Prod.fst (Option.some.inj registered)).symm

theorem Inv.single (inv : Inv hash s) (kind : NameKind) : (s.tables.idMap kind).Single := by
  intro id id' name found found'
  exact (inv.same_iff (inv.issued kind id name found) (inv.issued kind id' name found') rfl).mpr rfl

/-- A call of `Register` that finds an id. -/
theorem Inv.register (inv : Inv hash s) {kind : NameKind} {name : String} {id : UInt64} {map : IdMap}
    (registered : (s.tables.idMap kind).register hash name = some (id, map)) :
    Inv hash ⟨s.tables.setIdMap map kind, s.issued ++ [⟨kind, name, id⟩]⟩ := by
  obtain ⟨grows, here⟩ := IdMap.register_grows registered
  have grown : ∀ kind', (s.tables.idMap kind').Grows ((s.tables.setIdMap map kind).idMap kind') := by
    intro kind'
    rw [NameTables.idMap_setIdMap]
    split
    · rename_i same
      exact same ▸ grows
    · exact .refl _
  have stored : ((s.tables.setIdMap map kind).idMap kind) = map := by
    rw [NameTables.idMap_setIdMap, if_pos rfl]
  refine ⟨fun a member => ?_, fun a member => ?_, fun kind' id' name' found => ?_⟩
  · rcases List.mem_append.mp member with old | new
    · exact grown _ _ _ (inv.known a old)
    · rw [List.mem_singleton.mp new, stored]
      exact here
  · rcases List.mem_append.mp member with old | new
    · obtain ⟨map', before⟩ := inv.again a old
      exact ⟨_, (grown a.kind).register (inv.known a old) before⟩
    · rw [List.mem_singleton.mp new, stored]
      exact ⟨_, IdMap.register_again registered (.refl _)⟩
  · by_cases same : kind' = kind
    · subst same
      obtain ⟨key, _, put⟩ := Option.bind_eq_some_iff.mp registered
      cases put
      rw [stored, Table.lookup_insert_eq] at found
      split at found
      · rename_i own
        cases Option.some.inj found
        rw [own]
        exact List.mem_append_right _ (List.mem_singleton_self _)
      · exact List.mem_append_left _ (inv.issued _ _ _ found)
    · rw [NameTables.idMap_setIdMap, if_neg same] at found
      exact List.mem_append_left _ (inv.issued _ _ _ found)

/-- The calls that were made. -/
def made (s : Registrar) : List (NameKind × String) :=
  s.issued.map fun a => (a.kind, a.name)

theorem mem_namesOf {kind : NameKind} {name : String} {calls : List (NameKind × String)} :
    name ∈ namesOf kind calls ↔ (kind, name) ∈ calls := by
  simp only [namesOf, List.mem_toFinset, List.mem_map, List.mem_filter, decide_eq_true_eq]
  constructor
  · rintro ⟨call, ⟨member, rfl⟩, rfl⟩
    exact member
  · intro member
    exact ⟨_, ⟨member, rfl⟩, rfl⟩

/-- A call comes to an end while not all ids are taken. -/
theorem Inv.step (inv : Inv hash s) (call : NameKind × String) (few : (namesOf call.1 s.made).card < 2 ^ 64) :
    ∃ s', (machine hash).step s call = some s' ∧ Inv hash s' ∧ s'.made = s.made ++ [call] := by
  have free : (s.tables.idMap call.1).size < 2 ^ 64 := by
    refine lt_of_le_of_lt ((inv.single call.1).size_le fun id name found => ?_) few
    exact mem_namesOf.mpr (List.mem_map_of_mem (f := fun a => (a.kind, a.name)) (inv.issued _ _ _ found))
  obtain ⟨id, registered⟩ := IdMap.register_some free hash call.2
  refine ⟨_, ?_, inv.register registered, by simp [made]⟩
  show (s.tables.register hash call.2 call.1).map _ = _
  rw [NameTables.register_eq_some registered]
  rfl

theorem inv_exec (calls : List (NameKind × String)) (inv : Inv hash s)
    (few : ∀ kind, (namesOf kind (s.made ++ calls)).card < 2 ^ 64) :
    ∃ s', (machine hash).exec s calls = some s' ∧ Inv hash s' ∧ s'.made = s.made ++ calls := by
  induction calls generalizing s with
  | nil => exact ⟨s, rfl, inv, (List.append_nil _).symm⟩
  | cons call calls ih =>
    have fewer : (namesOf call.1 s.made).card < 2 ^ 64 := by
      refine lt_of_le_of_lt (Finset.card_le_card fun name member => ?_) (few call.1)
      exact mem_namesOf.mpr (List.mem_append_left _ (mem_namesOf.mp member))
    obtain ⟨next, step, inv', made'⟩ := inv.step call fewer
    have rest : next.made ++ calls = s.made ++ call :: calls := by
      rw [made', List.append_assoc]
      rfl
    obtain ⟨s', run, last, all⟩ := ih inv' (rest ▸ few)
    refine ⟨s', ?_, last, all.trans rest⟩
    rw [Machine.exec, step, Option.bind_some]
    exact run

/-- The values that the calls for one kind install in its `AtomicHashMap`. -/
def installsOf (kind : NameKind) (issued : List IssuedId) : List (Int × String) :=
  (issued.filter fun a => a.kind = kind).map fun a => ((a.id.toNat : Int), a.name)

/-- The tables are the contents of the maps after these installations. -/
theorem content_installsOf (reach : (machine hash).Reach s) (kind : NameKind) (id : UInt64) :
    AtomicHashMap.content (installsOf kind s.issued) id.toNat = (s.tables.idMap kind).lookup id := by
  refine reach.invariant (P := fun s => ∀ kind (id : UInt64),
    AtomicHashMap.content (installsOf kind s.issued) id.toNat = (s.tables.idMap kind).lookup id) ?_ ?_ kind id
  · intro kind id
    rw [show (machine hash).init.tables = .empty from rfl, NameTables.idMap_empty]
    rfl
  · intro s call s' same step kind id
    obtain ⟨⟨key, tables⟩, registered, rfl⟩ := Option.map_eq_some_iff.mp step
    obtain ⟨map, stored, rfl⟩ := NameTables.register_cases registered
    rw [NameTables.idMap_setIdMap]
    by_cases own : kind = call.1
    · have more : installsOf kind (s.issued ++ [⟨call.1, call.2, key⟩]) =
          installsOf kind s.issued ++ [((key.toNat : Int), call.2)] := by
        simp [installsOf, own]
      obtain ⟨id', _, put⟩ := Option.bind_eq_some_iff.mp stored
      cases put
      have keys : (id.toNat : Int) = key.toNat ↔ id = key := by rw [Int.natCast_inj, UInt64.toNat_inj]
      rw [if_pos own, more, AtomicHashMap.content_concat, Table.lookup_insert_eq, Function.update_apply, same, own]
      simp only [keys]
    · have more : installsOf kind (s.issued ++ [⟨call.1, call.2, key⟩]) = installsOf kind s.issued := by
        simp [installsOf, Ne.symm own]
      rw [if_neg own, more, same]

/-- Whatever the hash function, every call of a `Register` function ends. Different names never get the same id, a name
gets the id again that it got first, and the lookup of an id gives its name. -/
theorem names_registered (hash : String → UInt64) (calls : List (NameKind × String))
    (few : ∀ kind, (namesOf kind calls).card < 2 ^ 64) :
    ∃ s, (machine hash).exec (machine hash).init calls = some s ∧ s.made = calls ∧
      (∀ a ∈ s.issued, ∀ b ∈ s.issued, a.kind = b.kind → (a.id = b.id ↔ a.name = b.name)) ∧
      ∀ a ∈ s.issued, s.tables.getById a.id a.kind = a.name := by
  have init : Inv hash (machine hash).init := inv_init
  obtain ⟨s, run, inv, made⟩ := inv_exec calls init few
  refine ⟨s, run, made, fun a first b second kind => inv.same_iff first second kind, fun a member => ?_⟩
  rw [NameTables.getById, inv.known a member, Option.getD_some]

/-- Two names of one hash value, the greatest there is: the second one gets the id 0. -/
def wrapping : List (NameKind × String) :=
  [(.node, "talker"), (.node, "listener"), (.node, "talker")]

theorem names_registered_wrapping :
    ∃ s, (machine fun _ => 18446744073709551615).exec (machine fun _ => 18446744073709551615).init wrapping = some s ∧
      s.made = wrapping ∧
      (∀ a ∈ s.issued, ∀ b ∈ s.issued, a.kind = b.kind → (a.id = b.id ↔ a.name = b.name)) ∧
      ∀ a ∈ s.issued, s.tables.getById a.id a.kind = a.name :=
  names_registered _ wrapping fun kind => by cases kind <;> decide

example : ((machine fun _ => 18446744073709551615).stateAt wrapping 3).issued.map IssuedId.id =
    [18446744073709551615, 0, 18446744073709551615] := by decide

end Registrar

end CyberRT

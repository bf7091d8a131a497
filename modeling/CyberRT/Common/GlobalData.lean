import CyberRT.Lib.Table
import Mathlib.Data.Set.Function

namespace CyberRT
open Concur

/-- The names that have an id, by their id. -/
abbrev IdMap := Table UInt64 String

namespace IdMap

/-- Search upwards from `id` for the name or for a free id. The loop has no bound of its own: `none`
stands for one that never ends. -/
def probe (map : IdMap) (name : String) : Nat → UInt64 → Option UInt64
  | 0, _ => none
  | fuel + 1, id =>
    match map.lookup id with
    | none => some id
    | some other => if name = other then some id else probe map name fuel (id + 1)

/-- The id of a name, with the map that records it. No more than `size` ids are taken, so one more
attempt than that decides the search. -/
def register (hash : String → UInt64) (map : IdMap) (name : String) : Option (UInt64 × IdMap) := do
  let id ← map.probe name (map.size + 1) (hash name)
  return (id, map.insert id name)

/-- The map holds names of the given set, each under its hash value. -/
def Plain (hash : String → UInt64) (names : Set String) (map : IdMap) : Prop :=
  ∀ id name, map.lookup id = some name → id = hash name ∧ name ∈ names

theorem plain_empty (hash : String → UInt64) (names : Set String) : Plain hash names ∅ := by
  intro id name found
  cases found

/-- Names with different hash values are never moved to another id. -/
theorem Plain.register {hash : String → UInt64} {names : Set String} {map : IdMap} (plain : map.Plain hash names)
    (apart : Set.InjOn hash names) {name : String} (known : name ∈ names) :
    ∃ map', map.register hash name = some (hash name, map') ∧ map'.Plain hash names := by
  refine ⟨map.insert (hash name) name, ?_, ?_⟩
  · unfold IdMap.register probe
    cases found : map.lookup (hash name) with
    | none => rfl
    | some other =>
      obtain ⟨same, member⟩ := plain _ _ found
      simp [apart known member same]
  · intro id other found
    rw [Table.lookup_insert_eq] at found
    split at found
    · rename_i here
      cases Option.some.inj found
      exact ⟨here, known⟩
    · exact plain id other found

end IdMap

/-- The id tables of a process. -/
structure GlobalData where
  nodeIdMap : IdMap
  channelIdMap : IdMap

namespace GlobalData

def empty : GlobalData :=
  ⟨∅, ∅⟩

def registerNode (hash : String → UInt64) (gd : GlobalData) (nodeName : String) :
    Option (UInt64 × GlobalData) := do
  let (id, nodeIdMap) ← gd.nodeIdMap.register hash nodeName
  return (id, { gd with nodeIdMap })

def registerChannel (hash : String → UInt64) (gd : GlobalData) (channel : String) :
    Option (UInt64 × GlobalData) := do
  let (id, channelIdMap) ← gd.channelIdMap.register hash channel
  return (id, { gd with channelIdMap })

end GlobalData

end CyberRT

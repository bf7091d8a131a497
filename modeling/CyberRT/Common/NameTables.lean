import CyberRT.Common.GlobalData
import CyberRT.Lib.Machine
import CyberRT.ServiceDiscovery.ServiceManager

namespace CyberRT
open Concur

/-- What a name is the name of. -/
inductive NameKind
  | node
  | channel
  | service
  | task
  deriving DecidableEq

/-- The id tables of a process, with those of the services and the tasks. -/
structure NameTables extends GlobalData where
  serviceIdMap : IdMap
  taskIdMap : IdMap

namespace NameTables

def empty : NameTables :=
  ⟨.empty, ∅, ∅⟩

def generateHashId (hash : String → UInt64) (name : String) : UInt64 :=
  hash name

def registerService (hash : String → UInt64) (gd : NameTables) (service : String) : Option (UInt64 × NameTables) := do
  let (id, serviceIdMap) ← gd.serviceIdMap.register hash service
  return (id, { gd with serviceIdMap })

def registerTaskName (hash : String → UInt64) (gd : NameTables) (taskName : String) : Option (UInt64 × NameTables) := do
  let (id, taskIdMap) ← gd.taskIdMap.register hash taskName
  return (id, { gd with taskIdMap })

/-- The `Register` function of a kind of name. -/
def register (hash : String → UInt64) (gd : NameTables) (name : String) : NameKind → Option (UInt64 × NameTables)
  | .node => (gd.toGlobalData.registerNode hash name).map fun r => (r.1, { gd with toGlobalData := r.2 })
  | .channel => (gd.toGlobalData.registerChannel hash name).map fun r => (r.1, { gd with toGlobalData := r.2 })
  | .service => gd.registerService hash name
  | .task => gd.registerTaskName hash name

/-- The id table of a kind of name. -/
def idMap (gd : NameTables) : NameKind → IdMap
  | .node => gd.nodeIdMap
  | .channel => gd.channelIdMap
  | .service => gd.serviceIdMap
  | .task => gd.taskIdMap

def setIdMap (gd : NameTables) (map : IdMap) : NameKind → NameTables
  | .node => { gd with nodeIdMap := map }
  | .channel => { gd with channelIdMap := map }
  | .service => { gd with serviceIdMap := map }
  | .task => { gd with taskIdMap := map }

variable {gd gd' : NameTables} {hash : String → UInt64} {name : String} {kind : NameKind} {id : UInt64}

@[simp] theorem idMap_setIdMap (gd : NameTables) (map : IdMap) (kind kind' : NameKind) :
    (gd.setIdMap map kind).idMap kind' = if kind' = kind then map else gd.idMap kind' := by
  cases kind <;> cases kind' <;> rfl

@[simp] theorem idMap_empty (kind : NameKind) : empty.idMap kind = ∅ := by
  cases kind <;> rfl

/-- The `Register` functions differ in their tables only. -/
theorem register_eq_some {map : IdMap} (registered : (gd.idMap kind).register hash name = some (id, map)) :
    gd.register hash name kind = some (id, gd.setIdMap map kind) := by
  cases kind with
  | node => simp [register, GlobalData.registerNode, show gd.nodeIdMap.register hash name = _ from registered, setIdMap]
  | channel =>
    simp [register, GlobalData.registerChannel, show gd.channelIdMap.register hash name = _ from registered, setIdMap]
  | service => simp [register, registerService, show gd.serviceIdMap.register hash name = _ from registered, setIdMap]
  | task => simp [register, registerTaskName, show gd.taskIdMap.register hash name = _ from registered, setIdMap]

end NameTables

/-- A coroutine as the table of the scheduler knows it. -/
structure Task where
  id : UInt64
  name : String
  deriving DecidableEq

/-- A process: its id tables, and its scheduler. -/
structure Process where
  names : NameTables
  idCr : Table UInt64 Task
  stop : Bool

namespace Process

def create : Process :=
  ⟨.empty, ∅, false⟩

/-- A coroutine whose id is in use is refused. -/
def dispatchTask (p : Process) (cr : Task) : Bool × Process :=
  if (p.idCr.lookup cr.id).isSome then (false, p)
  else (true, { p with idCr := p.idCr.insert cr.id cr })

def createTask (hash : String → UInt64) (p : Process) (name : String) : Option (Bool × Process) :=
  if p.stop then some (false, p)
  else do
    let (taskId, names) ← p.names.registerTaskName hash name
    return { p with names }.dispatchTask ⟨taskId, name⟩

/-- The queue of the policy holds the coroutine if the table does. -/
def removeCRoutine (p : Process) (crid : UInt64) : Bool × Process :=
  if (p.idCr.lookup crid).isSome then (true, { p with idCr := p.idCr.erase crid }) else (false, p)

def removeTask (hash : String → UInt64) (p : Process) (name : String) : Bool × Process :=
  if p.stop then (true, p)
  else p.removeCRoutine (NameTables.generateHashId hash name)

def removeAll (p : Process) (crList : List UInt64) : Process :=
  crList.foldl (fun p id => (p.removeCRoutine id).2) p

def shutdown (p : Process) : Process :=
  if p.stop then p
  else removeAll { p with stop := true } (p.idCr.entries.map fun item => item.2.id)

end Process

/-- An id that a process has given to a name, for instance in the attributes of a role. -/
structure IssuedId where
  kind : NameKind
  name : String
  id : UInt64
  deriving DecidableEq

/-- Any number of processes. `issued` is a history. -/
structure Processes (π : Type) where
  process : π → Process
  issued : List IssuedId

namespace Processes
variable {π : Type}

inductive Event (π : Type)
  | register (p : π) (kind : NameKind) (name : String)
  | createTask (p : π) (name : String)
  | removeTask (p : π) (name : String)
  | shutdown (p : π)

def setProcess [DecidableEq π] (s : Processes π) (p : π) (after : Process) : Processes π :=
  { s with process := Function.update s.process p after }

def machine (π : Type) [DecidableEq π] (hash : String → UInt64) : Machine (Processes π) (Event π) where
  init := ⟨fun _ => .create, []⟩
  step s
    | .register p kind name => do
      let (id, names) ← (s.process p).names.register hash name kind
      return { s.setProcess p { s.process p with names } with issued := s.issued ++ [⟨kind, name, id⟩] }
    | .createTask p name => ((s.process p).createTask hash name).map fun r => s.setProcess p r.2
    | .removeTask p name => some (s.setProcess p ((s.process p).removeTask hash name).2)
    | .shutdown p => some (s.setProcess p (s.process p).shutdown)

end Processes

end CyberRT

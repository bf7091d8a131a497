import CyberRT.Common.GlobalData
import CyberRT.Lib.Machine
import CyberRT.ServiceDiscovery.Manager

namespace CyberRT
open Concur

/-- The manager of the nodes, and whether it called `AsyncShutdown`. -/
structure NodeManager extends Manager where
  nodes : SingleValueWarehouse
  shutdownRequested : Bool

namespace NodeManager

def create (hostName : String) (processId : Int) : NodeManager :=
  ⟨.create hostName processId, ∅, false⟩

def allowedRole (role : RoleType) : Bool :=
  role = .node

def check (attr : ServiceAttributes) : Bool :=
  if !attr.nodeName.isSome then false
  else if !attr.nodeId.isSome then false
  else true

/-- A role is of this process. -/
def isOwn (m : NodeManager) (role : Role) : Bool :=
  role.attributes.getProcessId == m.processId && role.attributes.getHostName == m.hostName

/-- Of two nodes of one id the earlier one stays; the process of the newer one is to terminate. `Add`, `Search`, the
comparison and the second `Add`, each of which locks the warehouse by itself, are one step. -/
def disposeJoin (m : NodeManager) (msg : RoleMsg) : NodeManager :=
  let node : Role := ⟨msg.roleAttr, msg.timestamp⟩
  let key := node.attributes.getNodeId
  let added := m.nodes.add key node false
  if added.2 then { m with nodes := added.1 }
  else
    match m.nodes.lookup key with
    | none => { m with nodes := (m.nodes.add key node true).1 }
    | some existingNode =>
      let earlier := node.isEarlierThan existingNode
      let newerNode := if earlier then existingNode else node
      { m with
        nodes := if earlier then (m.nodes.add key node true).1 else m.nodes
        shutdownRequested := m.shutdownRequested || m.isOwn newerNode }

def disposeLeave (m : NodeManager) (msg : RoleMsg) : NodeManager :=
  { m with nodes := m.nodes.remove msg.roleAttr.getNodeId }

def dispose (m : NodeManager) (msg : RoleMsg) : NodeManager :=
  if msg.operateType = .join then m.disposeJoin msg else m.disposeLeave msg

/-- The nodes of a process that left are removed. -/
def onTopoModuleLeave (m : NodeManager) (hostName : String) (processId : Int) : NodeManager :=
  if !m.isDiscoveryStarted then m
  else
    let nodesToRemove := m.nodes.searchAttr RoleNode.matchAttr (.ofProcess hostName processId)
    { m with nodes := nodesToRemove.foldl (fun nodes node => nodes.remove node.attributes.getNodeId) m.nodes }

/-- `HasNode` registers the name in this process. -/
def hasNode (hash : String → UInt64) (m : NodeManager) (gd : GlobalData) (nodeName : String) :
    Option (Bool × GlobalData) := do
  let (key, gd) ← gd.registerNode hash nodeName
  return (m.nodes.search key, gd)

/-- The message that an event makes the manager dispose. -/
def disposed (m : NodeManager) (e : Manager.Event) : Option RoleMsg :=
  m.toManager.disposed allowedRole check e

def apply (m : NodeManager) (e : Manager.Event) : NodeManager :=
  match e with
  | .onTopoModuleLeave hostName processId => m.onTopoModuleLeave hostName processId
  | .join .. | .leave .. | .onRemoteChange _ => ((m.disposed e).map m.dispose).getD m
  | .startDiscovery _ | .stopDiscovery | .shutdown => { m with toManager := m.toManager.control e }

end NodeManager

end CyberRT

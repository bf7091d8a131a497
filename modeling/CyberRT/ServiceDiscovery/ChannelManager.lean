import CyberRT.Common.GlobalData
import CyberRT.Lib.Machine
import CyberRT.ServiceDiscovery.GraphTraverse
import CyberRT.ServiceDiscovery.Warehouse

namespace CyberRT
open Concur

/-- The roles of the channels: four warehouses, and the graph of the nodes. -/
structure ChannelManager where
  isShutdown : Bool
  isDiscoveryStarted : Bool
  hostName : String
  processId : Int
  nodeGraph : Graph
  nodeWriters : MultiValueWarehouse
  nodeReaders : MultiValueWarehouse
  channelWriters : MultiValueWarehouse
  channelReaders : MultiValueWarehouse

namespace ChannelManager

def init (hostName : String) (processId : Int) : ChannelManager :=
  ⟨false, false, hostName, processId, .empty, [], [], [], []⟩

def check (attr : RoleAttributes) : Bool :=
  if !attr.channelName.isSome then false
  else if !attr.channelId.isSome then false
  else if !attr.id.isSome then false
  else true

/-- The edge of a role: a writer's node is a source of its channel, a reader's node a destination. -/
def edgeOf (roleType : RoleType) (attr : RoleAttributes) : Edge :=
  if roleType = .writer then ⟨⟨attr.getNodeName⟩, ⟨""⟩, attr.getChannelName⟩
  else ⟨⟨""⟩, ⟨attr.getNodeName⟩, attr.getChannelName⟩

def disposeJoin (m : ChannelManager) (msg : ChangeMsg) : ChannelManager :=
  let role := msg.roleAttr
  let m :=
    if msg.roleType = .writer then
      { m with nodeWriters := m.nodeWriters.add role.getNodeId role
               channelWriters := m.channelWriters.add role.getChannelId role }
    else
      { m with nodeReaders := m.nodeReaders.add role.getNodeId role
               channelReaders := m.channelReaders.add role.getChannelId role }
  { m with nodeGraph := m.nodeGraph.insert (edgeOf msg.roleType role) }

def disposeLeave (m : ChannelManager) (msg : ChangeMsg) : ChannelManager :=
  let role := msg.roleAttr
  let m :=
    if msg.roleType = .writer then
      { m with nodeWriters := m.nodeWriters.remove role.getNodeId role
               channelWriters := m.channelWriters.remove role.getChannelId role }
    else
      { m with nodeReaders := m.nodeReaders.remove role.getNodeId role
               channelReaders := m.channelReaders.remove role.getChannelId role }
  { m with nodeGraph := m.nodeGraph.delete (edgeOf msg.roleType role) }

def dispose (m : ChannelManager) (msg : ChangeMsg) : ChannelManager :=
  if msg.operateType = .join then m.disposeJoin msg else m.disposeLeave msg

/-- Missing host names and process ids are those of this process. -/
def convert (m : ChannelManager) (attr : RoleAttributes) (role : RoleType) (opt : OperateType) : ChangeMsg :=
  let attr := if attr.hostName.isSome then attr else { attr with hostName := some m.hostName }
  let attr := if attr.processId.isSome then attr else { attr with processId := some m.processId }
  ⟨opt, role, attr⟩

/-- The message that a local `Join` or `Leave` disposes, if it is not refused. -/
def localMsg (m : ChannelManager) (attr : RoleAttributes) (role : RoleType) (opt : OperateType) :
    Option ChangeMsg :=
  if m.isShutdown then none
  else if role ≠ .writer ∧ role ≠ .reader then none
  else if !check attr then none
  else some (m.convert attr role opt)

def isFromSameProcess (m : ChannelManager) (msg : ChangeMsg) : Bool :=
  if msg.roleAttr.getProcessId != m.processId || msg.roleAttr.getHostName != m.hostName then false else true

/-- The message that `OnRemoteChange` disposes, if it is not ignored. -/
def remoteMsg (m : ChannelManager) (msg : ChangeMsg) : Option ChangeMsg :=
  if m.isShutdown then none
  else if m.isFromSameProcess msg then none
  else if !check msg.roleAttr then none
  else some msg

def disposeIfAny (m : ChannelManager) : Option ChangeMsg → ChannelManager
  | none => m
  | some msg => m.dispose msg

def join (m : ChannelManager) (attr : RoleAttributes) (role : RoleType) : ChannelManager :=
  m.disposeIfAny (m.localMsg attr role .join)

def leave (m : ChannelManager) (attr : RoleAttributes) (role : RoleType) : ChannelManager :=
  m.disposeIfAny (m.localMsg attr role .leave)

def onRemoteChange (m : ChannelManager) (msg : ChangeMsg) : ChannelManager :=
  m.disposeIfAny (m.remoteMsg msg)

/-- The attributes of the roles of a process. -/
def ofProcess (hostName : String) (processId : Int) : RoleAttributes :=
  { RoleAttributes.empty with hostName := some hostName, processId := some processId }

def leaveAll (role : RoleType) (m : ChannelManager) (attrs : List RoleAttributes) : ChannelManager :=
  attrs.foldl (fun m attr => m.disposeLeave (m.convert attr role .leave)) m

def onTopoModuleLeave (m : ChannelManager) (hostName : String) (processId : Int) : ChannelManager :=
  if !m.isDiscoveryStarted then m
  else
    let attr := ofProcess hostName processId
    let writersToRemove := m.channelWriters.searchAttr attr
    let readersToRemove := m.channelReaders.searchAttr attr
    leaveAll .reader (leaveAll .writer m writersToRemove) readersToRemove

section
variable (hash : String → UInt64)

def getWritersOfNode (m : ChannelManager) (gd : GlobalData) (nodeName : String) :
    Option (List RoleAttributes × GlobalData) := do
  let (key, gd) ← gd.registerNode hash nodeName
  return (m.nodeWriters.search key, gd)

def getReadersOfNode (m : ChannelManager) (gd : GlobalData) (nodeName : String) :
    Option (List RoleAttributes × GlobalData) := do
  let (key, gd) ← gd.registerNode hash nodeName
  return (m.nodeReaders.search key, gd)

def getWritersOfChannel (m : ChannelManager) (gd : GlobalData) (channelName : String) :
    Option (List RoleAttributes × GlobalData) := do
  let (key, gd) ← gd.registerChannel hash channelName
  return (m.channelWriters.search key, gd)

def getReadersOfChannel (m : ChannelManager) (gd : GlobalData) (channelName : String) :
    Option (List RoleAttributes × GlobalData) := do
  let (key, gd) ← gd.registerChannel hash channelName
  return (m.channelReaders.search key, gd)

/-- The roles of several channels, one query after the other. -/
def ofChannels (query : GlobalData → String → Option (List RoleAttributes × GlobalData)) :
    GlobalData → List String → Option (List RoleAttributes × GlobalData)
  | gd, [] => some ([], gd)
  | gd, channel :: channels => do
    let (found, gd) ← query gd channel
    let (rest, gd) ← ofChannels query gd channels
    return (found ++ rest, gd)

/-- The part of a role that describes its node. -/
def nodeAttr (role : RoleAttributes) : RoleAttributes :=
  { RoleAttributes.empty with
    hostName := some role.getHostName, processId := some role.getProcessId,
    nodeName := some role.getNodeName, nodeId := some role.getNodeId }

/-- One entry for each node name; a later role overwrites an earlier one. -/
def nodesOf (roles : List RoleAttributes) : List RoleAttributes :=
  let nodes : Table String RoleAttributes :=
    roles.foldl (fun nodes role => nodes.insert (nodeAttr role).getNodeName (nodeAttr role)) ∅
  nodes.entries.map fun item => item.2

def getUpstreamOfNode (m : ChannelManager) (gd : GlobalData) (nodeName : String) :
    Option (List RoleAttributes × GlobalData) := do
  let (readers, gd) ← m.getReadersOfNode hash gd nodeName
  if readers.isEmpty then return ([], gd)
  let channels := (readers.map RoleAttributes.getChannelName).dedup
  let (writers, gd) ← ofChannels (m.getWritersOfChannel hash) gd channels
  return (nodesOf writers, gd)

def getDownstreamOfNode (m : ChannelManager) (gd : GlobalData) (nodeName : String) :
    Option (List RoleAttributes × GlobalData) := do
  let (writers, gd) ← m.getWritersOfNode hash gd nodeName
  if writers.isEmpty then return ([], gd)
  let channels := (writers.map RoleAttributes.getChannelName).dedup
  let (readers, gd) ← ofChannels (m.getReadersOfChannel hash) gd channels
  return (nodesOf readers, gd)

end

def getFlowDirection (m : ChannelManager) (lhsNodeName rhsNodeName : String) : FlowDirection × ChannelManager :=
  let result := m.nodeGraph.getDirectionOf ⟨lhsNodeName⟩ ⟨rhsNodeName⟩
  (result.1, { m with nodeGraph := result.2 })

structure State where
  manager : ChannelManager
  globalData : GlobalData

inductive Event
  | startDiscovery (created : Bool)
  | stopDiscovery
  | shutdown
  | join (attr : RoleAttributes) (role : RoleType)
  | leave (attr : RoleAttributes) (role : RoleType)
  | onRemoteChange (msg : ChangeMsg)
  | onTopoModuleLeave (hostName : String) (processId : Int)
  | registerNode (nodeName : String)
  | registerChannel (channelName : String)
  | getUpstreamOfNode (nodeName : String)
  | getDownstreamOfNode (nodeName : String)
  | getFlowDirection (lhs rhs : String)
  deriving DecidableEq

/-- Starting the discovery fails, and stops it again, if its publisher or subscriber cannot be created. -/
def startDiscovery (m : ChannelManager) (created : Bool) : ChannelManager :=
  if m.isDiscoveryStarted then m else { m with isDiscoveryStarted := created }

def shutdown (m : ChannelManager) : ChannelManager :=
  if m.isShutdown then m else { m with isShutdown := true, isDiscoveryStarted := false }

def step (hash : String → UInt64) (s : State) : Event → Option State
  | .startDiscovery created => some { s with manager := s.manager.startDiscovery created }
  | .stopDiscovery => some { s with manager := { s.manager with isDiscoveryStarted := false } }
  | .shutdown => some { s with manager := s.manager.shutdown }
  | .join attr role => some { s with manager := s.manager.join attr role }
  | .leave attr role => some { s with manager := s.manager.leave attr role }
  | .onRemoteChange msg => some { s with manager := s.manager.onRemoteChange msg }
  | .onTopoModuleLeave host pid => some { s with manager := s.manager.onTopoModuleLeave host pid }
  | .registerNode name => (s.globalData.registerNode hash name).map fun r => { s with globalData := r.2 }
  | .registerChannel name => (s.globalData.registerChannel hash name).map fun r => { s with globalData := r.2 }
  | .getUpstreamOfNode name =>
    (s.manager.getUpstreamOfNode hash s.globalData name).map fun r => { s with globalData := r.2 }
  | .getDownstreamOfNode name =>
    (s.manager.getDownstreamOfNode hash s.globalData name).map fun r => { s with globalData := r.2 }
  | .getFlowDirection lhs rhs => some { s with manager := (s.manager.getFlowDirection lhs rhs).2 }

def machine (hash : String → UInt64) (hostName : String) (processId : Int) : Machine State Event where
  init := ⟨init hostName processId, .empty⟩
  step := step hash

end ChannelManager

end CyberRT

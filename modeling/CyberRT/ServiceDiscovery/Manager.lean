import CyberRT.Lib.Table
import CyberRT.ServiceDiscovery.Warehouse

namespace CyberRT
open Concur

/-- The attributes of a role, with the fields of a service. -/
structure ServiceAttributes extends RoleAttributes where
  serviceName : Option String
  serviceId : Option UInt64
  deriving DecidableEq

namespace ServiceAttributes

def empty : ServiceAttributes :=
  ⟨.empty, none, none⟩

def getServiceName (attr : ServiceAttributes) : String :=
  attr.serviceName.getD ""

def getServiceId (attr : ServiceAttributes) : UInt64 :=
  attr.serviceId.getD 0

/-- The attributes of the roles of a process. -/
def ofProcess (hostName : String) (processId : Int) : ServiceAttributes :=
  { empty with hostName := some hostName, processId := some processId }

end ServiceAttributes

/-- A role with the time of its `ChangeMsg`. -/
structure Role where
  attributes : ServiceAttributes
  timestampNs : Nat
  deriving DecidableEq

def Role.isEarlierThan (role other : Role) : Bool :=
  decide (role.timestampNs < other.timestampNs)

/-- The `Match` of the role of a node. -/
def RoleNode.matchAttr (attributes target : ServiceAttributes) : Bool :=
  RoleBase.matchAttr attributes.toRoleAttributes target.toRoleAttributes

/-- Clients are matched as servers are. -/
def RoleServer.matchAttr (attributes target : ServiceAttributes) : Bool :=
  if target.serviceId.isSome && target.getServiceId != attributes.getServiceId then false
  else RoleBase.matchAttr attributes.toRoleAttributes target.toRoleAttributes

/-- A map from ids to roles. -/
abbrev SingleValueWarehouse := Table UInt64 Role

namespace SingleValueWarehouse

def add (w : SingleValueWarehouse) (key : UInt64) (role : Role) (ignoreIfExist : Bool) : SingleValueWarehouse × Bool :=
  if !ignoreIfExist && (w.lookup key).isSome then (w, false) else (w.insert key role, true)

/-- `Remove` by key, whatever the role. -/
def remove (w : SingleValueWarehouse) (key : UInt64) : SingleValueWarehouse :=
  w.erase key

def search (w : SingleValueWarehouse) (key : UInt64) : Bool :=
  (w.lookup key).isSome

/-- `Search` by attributes. -/
def searchAttr (w : SingleValueWarehouse) (matchAttr : ServiceAttributes → ServiceAttributes → Bool)
    (target : ServiceAttributes) : List Role :=
  (w.entries.map fun item => item.2).filter fun role => matchAttr role.attributes target

end SingleValueWarehouse

/-- The multimap of the clients, by the ids of their services. -/
abbrev ClientWarehouse := List (UInt64 × Role)

namespace ClientWarehouse

def add (w : ClientWarehouse) (key : UInt64) (role : Role) : ClientWarehouse :=
  w ++ [(key, role)]

/-- Remove the roles under `key` that match `role`. -/
def remove (w : ClientWarehouse) (key : UInt64) (role : Role) : ClientWarehouse :=
  w.filter fun item => !(item.1 == key && RoleServer.matchAttr item.2.attributes role.attributes)

def search (w : ClientWarehouse) (key : UInt64) : List Role :=
  (w.filter fun item => item.1 == key).map fun item => item.2

def searchAttr (w : ClientWarehouse) (target : ServiceAttributes) : List Role :=
  (w.map fun item => item.2).filter fun role => RoleServer.matchAttr role.attributes target

end ClientWarehouse

/-- A `ChangeMsg` about a node or a service. -/
structure RoleMsg where
  timestamp : Nat
  operateType : OperateType
  roleType : RoleType
  roleAttr : ServiceAttributes
  deriving DecidableEq

/-- What all managers have. -/
structure Manager where
  isShutdown : Bool
  isDiscoveryStarted : Bool
  hostName : String
  processId : Int

namespace Manager

def create (hostName : String) (processId : Int) : Manager :=
  ⟨false, false, hostName, processId⟩

/-- Starting the discovery fails, and stops it again, if its publisher or subscriber cannot be created. -/
def startDiscovery (m : Manager) (created : Bool) : Manager :=
  if m.isDiscoveryStarted then m else { m with isDiscoveryStarted := created }

def stopDiscovery (m : Manager) : Manager :=
  { m with isDiscoveryStarted := false }

def shutdown (m : Manager) : Manager :=
  if m.isShutdown then m else { m.stopDiscovery with isShutdown := true }

/-- Missing host names and process ids are those of this process. -/
def convert (m : Manager) (now : Nat) (attr : ServiceAttributes) (role : RoleType) (opt : OperateType) : RoleMsg :=
  let attr := if attr.hostName.isSome then attr else { attr with hostName := some m.hostName }
  let attr := if attr.processId.isSome then attr else { attr with processId := some m.processId }
  ⟨now, opt, role, attr⟩

/-- The message that a `Join` or `Leave` disposes, if it is not refused. -/
def localMsg (m : Manager) (allowedRole : RoleType → Bool) (check : ServiceAttributes → Bool) (now : Nat)
    (attr : ServiceAttributes) (role : RoleType) (opt : OperateType) : Option RoleMsg :=
  if m.isShutdown then none
  else if !allowedRole role then none
  else if !check attr then none
  else some (m.convert now attr role opt)

def isFromSameProcess (m : Manager) (msg : RoleMsg) : Bool :=
  if msg.roleAttr.getProcessId != m.processId || msg.roleAttr.getHostName != m.hostName then false else true

/-- The message that `OnRemoteChange` disposes, if it is not ignored. -/
def remoteMsg (m : Manager) (check : ServiceAttributes → Bool) (msg : RoleMsg) : Option RoleMsg :=
  if m.isShutdown then none
  else if m.isFromSameProcess msg then none
  else if !check msg.roleAttr then none
  else some msg

/-- What a manager is called for. -/
inductive Event
  | startDiscovery (created : Bool)
  | stopDiscovery
  | shutdown
  | join (now : Nat) (attr : ServiceAttributes) (role : RoleType)
  | leave (now : Nat) (attr : ServiceAttributes) (role : RoleType)
  | onRemoteChange (msg : RoleMsg)
  | onTopoModuleLeave (hostName : String) (processId : Int)
  deriving DecidableEq

/-- The message that an event makes a manager dispose. -/
def disposed (m : Manager) (allowedRole : RoleType → Bool) (check : ServiceAttributes → Bool) : Event → Option RoleMsg
  | .join now attr role => m.localMsg allowedRole check now attr role .join
  | .leave now attr role => m.localMsg allowedRole check now attr role .leave
  | .onRemoteChange msg => m.remoteMsg check msg
  | _ => none

/-- What an event makes of the state that all managers have. -/
def control (m : Manager) : Event → Manager
  | .startDiscovery created => m.startDiscovery created
  | .stopDiscovery => m.stopDiscovery
  | .shutdown => m.shutdown
  | _ => m

end Manager

end CyberRT

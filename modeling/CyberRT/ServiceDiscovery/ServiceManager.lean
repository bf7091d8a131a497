import CyberRT.Lib.Machine
import CyberRT.ServiceDiscovery.Manager

namespace CyberRT
open Concur

/-- The manager of the services: the servers, one for each service, and the clients. -/
structure ServiceManager extends Manager where
  servers : SingleValueWarehouse
  clients : ClientWarehouse

namespace ServiceManager

def create (hostName : String) (processId : Int) : ServiceManager :=
  ⟨.create hostName processId, ∅, []⟩

def allowedRole (role : RoleType) : Bool :=
  role = .server || role = .client

def check (attr : ServiceAttributes) : Bool :=
  if !attr.serviceName.isSome then false
  else if !attr.serviceId.isSome then false
  else true

/-- A server takes the place of the one before it. The roles have no timestamp. -/
def disposeJoin (m : ServiceManager) (msg : RoleMsg) : ServiceManager :=
  let role : Role := ⟨msg.roleAttr, 0⟩
  if msg.roleType = .server then { m with servers := (m.servers.add role.attributes.getServiceId role true).1 }
  else { m with clients := m.clients.add role.attributes.getServiceId role }

def disposeLeave (m : ServiceManager) (msg : RoleMsg) : ServiceManager :=
  let role : Role := ⟨msg.roleAttr, 0⟩
  if msg.roleType = .server then { m with servers := m.servers.remove role.attributes.getServiceId }
  else { m with clients := m.clients.remove role.attributes.getServiceId role }

def dispose (m : ServiceManager) (msg : RoleMsg) : ServiceManager :=
  if msg.operateType = .join then m.disposeJoin msg else m.disposeLeave msg

/-- The servers and the clients of a process that left are removed. -/
def onTopoModuleLeave (m : ServiceManager) (hostName : String) (processId : Int) : ServiceManager :=
  if !m.isDiscoveryStarted then m
  else
    let serversToRemove := m.servers.searchAttr RoleServer.matchAttr (.ofProcess hostName processId)
    let clientsToRemove := m.clients.searchAttr (.ofProcess hostName processId)
    { m with
      servers := serversToRemove.foldl (fun servers role => servers.remove role.attributes.getServiceId) m.servers
      clients := clientsToRemove.foldl (fun clients role => clients.remove role.attributes.getServiceId role) m.clients }

/-- `HasService` looks up the hash value of the name. -/
def hasService (hash : String → UInt64) (m : ServiceManager) (serviceName : String) : Bool :=
  m.servers.search (hash serviceName)

def getClients (hash : String → UInt64) (m : ServiceManager) (serviceName : String) : List ServiceAttributes :=
  (m.clients.search (hash serviceName)).map fun role => role.attributes

/-- The message that an event makes the manager dispose. -/
def disposed (m : ServiceManager) (e : Manager.Event) : Option RoleMsg :=
  m.toManager.disposed allowedRole check e

def apply (m : ServiceManager) (e : Manager.Event) : ServiceManager :=
  match e with
  | .onTopoModuleLeave hostName processId => m.onTopoModuleLeave hostName processId
  | .join .. | .leave .. | .onRemoteChange _ => ((m.disposed e).map m.dispose).getD m
  | .startDiscovery _ | .stopDiscovery | .shutdown => { m with toManager := m.toManager.control e }

end ServiceManager

end CyberRT

import Mathlib.Init

namespace CyberRT

inductive RoleType
  | node
  | writer
  | reader
  | server
  | client
  | participant
  deriving DecidableEq

inductive OperateType
  | join
  | leave
  deriving DecidableEq

/-- The attributes of a role. Every field of the message is optional; an accessor of an absent field
reads its default. -/
structure RoleAttributes where
  hostName : Option String
  hostIp : Option String
  processId : Option Int
  nodeName : Option String
  nodeId : Option UInt64
  channelName : Option String
  channelId : Option UInt64
  id : Option UInt64
  deriving DecidableEq

namespace RoleAttributes

/-- A message with no field set. -/
def empty : RoleAttributes :=
  ⟨none, none, none, none, none, none, none, none⟩

def getHostName (attr : RoleAttributes) : String :=
  attr.hostName.getD ""

def getHostIp (attr : RoleAttributes) : String :=
  attr.hostIp.getD ""

def getProcessId (attr : RoleAttributes) : Int :=
  attr.processId.getD 0

def getNodeName (attr : RoleAttributes) : String :=
  attr.nodeName.getD ""

def getNodeId (attr : RoleAttributes) : UInt64 :=
  attr.nodeId.getD 0

def getChannelName (attr : RoleAttributes) : String :=
  attr.channelName.getD ""

def getChannelId (attr : RoleAttributes) : UInt64 :=
  attr.channelId.getD 0

def getId (attr : RoleAttributes) : UInt64 :=
  attr.id.getD 0

end RoleAttributes

structure ChangeMsg where
  operateType : OperateType
  roleType : RoleType
  roleAttr : RoleAttributes
  deriving DecidableEq

end CyberRT

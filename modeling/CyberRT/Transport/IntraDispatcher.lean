import CyberRT.Common.Proto
import CyberRT.Transport.ListenerHandler

namespace CyberRT
open Concur

/-- The handlers of the channels, one for each message type that listens to a channel. A message type is
known by its name. -/
abbrev BaseHandlers (L : Type) := Table UInt64 (Table String (ListenerHandler L))

structure ChannelChain (L : Type) where
  handlers : BaseHandlers L
  oppoHandlers : Table UInt64 (BaseHandlers L)

/-- The listener that the dispatcher connects to the handler of a channel: it runs the chain. -/
structure ListenerWrapper where
  selfId : UInt64
  oppoId : Option UInt64
  channelId : UInt64
  messageType : String
  deriving DecidableEq

namespace ChannelChain
variable {L : Type}

/-- The handler of a message type on a channel, and whether it is a new one. -/
def getHandler (channelId : UInt64) (messageType : String) (handlers : BaseHandlers L) : ListenerHandler L × Bool :=
  match (handlers.get channelId).lookup messageType with
  | none => (.empty, true)
  | some handler => (handler, false)

def setHandler (channelId : UInt64) (messageType : String) (handler : ListenerHandler L) (handlers : BaseHandlers L) :
    BaseHandlers L :=
  handlers.insert channelId ((handlers.get channelId).insert messageType handler)

/-- The handlers without the one of a message type. The handler itself is disconnected and dropped. -/
def removeHandler (channelId : UInt64) (messageType : String) (handlers : BaseHandlers L) : BaseHandlers L :=
  match handlers.lookup channelId with
  | none => handlers
  | some ofChannel =>
    let rest := ofChannel.erase messageType
    if rest.entries.isEmpty then handlers.erase channelId else handlers.insert channelId rest

def addListener (c : ChannelChain L) (selfId channelId : UInt64) (messageType : String) (listener : L) :
    ChannelChain L × Bool :=
  let (handler, created) := getHandler channelId messageType c.handlers
  ({ c with handlers := setHandler channelId messageType (handler.connect selfId listener) c.handlers }, created)

def addListenerOpposite (c : ChannelChain L) (selfId oppoId channelId : UInt64) (messageType : String)
    (listener : L) : ChannelChain L × Bool :=
  let handlers := c.oppoHandlers.get oppoId
  let (handler, created) := getHandler channelId messageType handlers
  let handlers := setHandler channelId messageType (handler.connectOpposite selfId oppoId listener) handlers
  ({ c with oppoHandlers := c.oppoHandlers.insert oppoId handlers }, created)

def removeListener (c : ChannelChain L) (channelId : UInt64) (messageType : String) : ChannelChain L :=
  { c with handlers := removeHandler channelId messageType c.handlers }

def removeListenerOpposite (c : ChannelChain L) (oppoId channelId : UInt64) (messageType : String) : ChannelChain L :=
  match c.oppoHandlers.lookup oppoId with
  | none => c
  | some handlers =>
    let handlers := removeHandler channelId messageType handlers
    if handlers.entries.isEmpty then { c with oppoHandlers := c.oppoHandlers.erase oppoId }
    else { c with oppoHandlers := c.oppoHandlers.insert oppoId handlers }

/-- The listeners of a channel that a message of the given type reaches. `convert` tells whether a message
of one type can be serialized and parsed as one of another. -/
def runHandlers (convert : String → String → Bool) (channelId : UInt64) (messageType : String)
    (handlers : BaseHandlers L) (sender : UInt64) : List L :=
  match handlers.lookup channelId with
  | none => []
  | some channelHandlers =>
    channelHandlers.entries.flatMap fun ele =>
      if messageType = ele.1 then ele.2.run sender
      else if convert messageType ele.1 then ele.2.run sender
      else []

def run (convert : String → String → Bool) (c : ChannelChain L) (w : ListenerWrapper) (sender : UInt64) : List L :=
  match w.oppoId with
  | none => runHandlers convert w.channelId w.messageType c.handlers sender
  | some oppoId =>
    match c.oppoHandlers.lookup oppoId with
    | none => []
    | some handlers => runHandlers convert w.channelId w.messageType handlers sender

end ChannelChain

/-- The dispatcher of messages within a process. A channel's handler in `msg_listeners_` has the message
type of the first listener; its listeners are wrappers that run the chain. -/
structure IntraDispatcher (L : Type) where
  isShutdown : Bool
  msgListeners : Table UInt64 (String × ListenerHandler ListenerWrapper)
  chain : ChannelChain L

namespace IntraDispatcher
variable {L : Type}

def init : IntraDispatcher L :=
  ⟨false, ∅, ⟨∅, ∅⟩⟩

/-- The channel's handler, created if the channel has none. It is null if it has another message type. -/
def getHandler (d : IntraDispatcher L) (messageType : String) (channelId : UInt64) :
    Option (ListenerHandler ListenerWrapper) × IntraDispatcher L :=
  match d.msgListeners.lookup channelId with
  | some (base, handler) => if messageType = base then (some handler, d) else (none, d)
  | none => (some .empty, { d with msgListeners := d.msgListeners.insert channelId (messageType, .empty) })

/-- Connect a wrapper to the channel's handler if the chain made a new handler for the message type. -/
def connectWrapper (d : IntraDispatcher L) (w : ListenerWrapper) (created : Bool) : IntraDispatcher L :=
  match d.getHandler w.messageType w.channelId with
  | (some handler, d) =>
    if created then
      let handler := handler.connectAt w.oppoId w.selfId w
      { d with msgListeners := d.msgListeners.insert w.channelId (w.messageType, handler) }
    else d
  | (none, d) => d

def addListener (d : IntraDispatcher L) (messageType : String) (selfAttr : RoleAttributes) (listener : L) :
    IntraDispatcher L :=
  if d.isShutdown then d
  else
    let (chain, created) := d.chain.addListener selfAttr.getId selfAttr.getChannelId messageType listener
    connectWrapper { d with chain } ⟨selfAttr.getId, none, selfAttr.getChannelId, messageType⟩ created

def addListenerOpposite (d : IntraDispatcher L) (messageType : String) (selfAttr oppositeAttr : RoleAttributes)
    (listener : L) : IntraDispatcher L :=
  if d.isShutdown then d
  else
    let (chain, created) := d.chain.addListenerOpposite selfAttr.getId oppositeAttr.getId selfAttr.getChannelId
      messageType listener
    connectWrapper { d with chain }
      ⟨selfAttr.getId, some oppositeAttr.getId, selfAttr.getChannelId, messageType⟩ created

/-- `Dispatcher::RemoveListener`, which looks at no message type. -/
def disconnectWrapper (d : IntraDispatcher L) (channelId : UInt64) (oppoId : Option UInt64) (selfId : UInt64) :
    IntraDispatcher L :=
  match d.msgListeners.lookup channelId with
  | none => d
  | some (base, handler) =>
    { d with msgListeners := d.msgListeners.insert channelId (base, handler.disconnectAt oppoId selfId) }

def removeListener (d : IntraDispatcher L) (messageType : String) (selfAttr : RoleAttributes) : IntraDispatcher L :=
  if d.isShutdown then d
  else
    let d := d.disconnectWrapper selfAttr.getChannelId none selfAttr.getId
    { d with chain := d.chain.removeListener selfAttr.getChannelId messageType }

def removeListenerOpposite (d : IntraDispatcher L) (messageType : String) (selfAttr oppositeAttr : RoleAttributes) :
    IntraDispatcher L :=
  if d.isShutdown then d
  else
    let d := d.disconnectWrapper selfAttr.getChannelId (some oppositeAttr.getId) selfAttr.getId
    { d with chain := d.chain.removeListenerOpposite oppositeAttr.getId selfAttr.getChannelId messageType }

/-- The listeners that a message invokes, in their order. -/
def onMessage (convert : String → String → Bool) (d : IntraDispatcher L) (channelId : UInt64) (messageType : String)
    (sender : UInt64) : List L :=
  if d.isShutdown then []
  else
    match d.msgListeners.lookup channelId with
    | none => []
    | some (base, handler) =>
      if messageType = base || convert messageType base then
        (handler.run sender).flatMap fun w => d.chain.run convert w sender
      else []

inductive Call (L : Type)
  | addListener (messageType : String) (selfAttr : RoleAttributes) (listener : L)
  | addListenerOpposite (messageType : String) (selfAttr oppositeAttr : RoleAttributes) (listener : L)
  | removeListener (messageType : String) (selfAttr : RoleAttributes)
  | removeListenerOpposite (messageType : String) (selfAttr oppositeAttr : RoleAttributes)

def apply (d : IntraDispatcher L) : Call L → IntraDispatcher L
  | .addListener messageType selfAttr listener => d.addListener messageType selfAttr listener
  | .addListenerOpposite messageType selfAttr oppositeAttr listener =>
    d.addListenerOpposite messageType selfAttr oppositeAttr listener
  | .removeListener messageType selfAttr => d.removeListener messageType selfAttr
  | .removeListenerOpposite messageType selfAttr oppositeAttr =>
    d.removeListenerOpposite messageType selfAttr oppositeAttr

end IntraDispatcher

end CyberRT

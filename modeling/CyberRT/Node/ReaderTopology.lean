import CyberRT.Base.Signal
import CyberRT.Lib.Threads
import CyberRT.ServiceDiscovery.ChannelManager
import CyberRT.Transport.HybridReceiver

namespace CyberRT
open Concur

/-- The writers of all processes, each with an id of its own. On a channel are those with its name, which are those with
its id. -/
structure Writers (channelName : String) (channelId : UInt64) where
  attr : UInt64 → RoleAttributes
  own : ∀ id, (attr id).id = some id
  agree : ∀ id, (attr id).getChannelId = channelId ↔ (attr id).getChannelName = channelName

namespace ReaderTopology

/-- A reader that has added its change listener. -/
structure Reader where
  roleAttr : RoleAttributes
  changeConn : Connection
  deriving DecidableEq

/-- What the readers of a channel share in a process: the channel manager with the signal of its listeners, and their
receiver. `joined` has the readers that have joined and not begun to leave. -/
structure Shared where
  manager : ChannelManager
  signal : Signal RoleAttributes
  receiver : HybridReceiver
  joined : List Reader

inductive At
  | idle
  /-- `JoinTheTopology`: the listener is added, the writers are taken, and each is enabled. -/
  | getWriters (reader : Reader)
  | enable (reader : Reader) (rest : List RoleAttributes)
  /-- `LeaveTheTopology`: the listener is removed. -/
  | leave (reader : Reader)
  /-- The registry was updated, the listeners are to be called, and those of the list are still to be called. -/
  | notify (msg : ChangeMsg)
  | call (msg : ChangeMsg) (rest : List (Slot RoleAttributes))

inductive Input
  | joinTheTopology (roleAttr : RoleAttributes)
  | leaveTheTopology (reader : Reader)
  /-- A writer joins if it is not registered, and leaves if it is. -/
  | change (operateType : OperateType) (id : UInt64)
  | next

/-- The listener of a reader. -/
def onChannelChange (roleAttr : RoleAttributes) (r : HybridReceiver) (msg : ChangeMsg) : HybridReceiver :=
  if msg.roleType ≠ .writer then r
  else if msg.roleAttr.getChannelName ≠ roleAttr.getChannelName then r
  else if msg.operateType = .join then r.enable msg.roleAttr
  else r.disable msg.roleAttr

/-- A slot that a call of the signal has taken is called if it is still connected. -/
def Connected (signal : Signal RoleAttributes) (slot : Slot RoleAttributes) : Prop :=
  ∃ held ∈ signal.slots, held.number = slot.number ∧ held.connected = true

instance (signal : Signal RoleAttributes) (slot : Slot RoleAttributes) : Decidable (Connected signal slot) :=
  inferInstanceAs (Decidable (∃ held ∈ signal.slots, _))

/-- `Join` or `Leave` of a reader: its message is disposed unless it is refused. -/
def announce (m : Shared) (roleAttr : RoleAttributes) (operateType : OperateType) : Shared × At :=
  match m.manager.localMsg roleAttr .reader operateType with
  | none => (m, .idle)
  | some msg => ({ m with manager := m.manager.dispose msg }, .notify msg)

section
variable {attr : RoleAttributes} {channelId : UInt64} (w : Writers attr.getChannelName channelId)

def Registered (m : Shared) (id : UInt64) : Prop :=
  ((w.attr id).getChannelId, w.attr id) ∈ m.manager.channelWriters

instance (m : Shared) (id : UInt64) : Decidable (Registered w m id) :=
  inferInstanceAs (Decidable (_ ∈ _))

/-- The message of a writer. -/
def changeMsg (operateType : OperateType) (id : UInt64) : ChangeMsg :=
  ⟨operateType, .writer, w.attr id⟩

/-- The test whether the connection of a slot stands, and the callback of the slot, are one step. -/
def act (m : Shared) : At → Input → Option (Shared × At)
  | .idle, .joinTheTopology roleAttr =>
    if roleAttr.getChannelName = attr.getChannelName then
      let (changeConn, signal) := m.signal.connect roleAttr
      some ({ m with signal }, .getWriters ⟨roleAttr, changeConn⟩)
    else none
  | .getWriters reader, .next => some (m, .enable reader (m.manager.channelWriters.search channelId))
  | .enable reader (writer :: rest), .next =>
    some ({ m with receiver := m.receiver.enable writer }, .enable reader rest)
  | .enable reader [], .next => some (announce { m with joined := reader :: m.joined } reader.roleAttr .join)
  | .idle, .leaveTheTopology reader =>
    if reader ∈ m.joined then
      some ({ m with signal := m.signal.disconnect reader.changeConn, joined := m.joined.erase reader }, .leave reader)
    else none
  | .leave reader, .next => some (announce m reader.roleAttr .leave)
  | .idle, .change operateType id =>
    if Registered w m id ↔ operateType = .leave then
      let msg := changeMsg w operateType id
      some ({ m with manager := m.manager.dispose msg }, .notify msg)
    else none
  | .notify msg, .next => some (m, .call msg m.signal.slots)
  | .call msg (slot :: rest), .next =>
    if Connected m.signal slot then
      some ({ m with receiver := onChannelChange slot.cb m.receiver msg }, .call msg rest)
    else some (m, .call msg rest)
  | .call _ [], .next => some ({ m with signal := m.signal.afterCall }, .idle)
  | _, _ => none

/-- The readers of the channel and the messages of the writers, in any interleaving of any number of threads. The
receiver is made for the first reader and stays. -/
def machine (τ : Type) [DecidableEq τ] (hostName : String) (processId : Int) (mode : CommunicationMode) :
    Machine (Config τ Shared At) (τ × Input) :=
  Config.machine ⟨.init hostName processId, .empty, .init attr mode, []⟩ (fun _ => .idle) (act w)

/-- The tables of the receiver have exactly the writers that are registered on the channel, each under the mode of its
relation, and the underlying receiver of each mode is enabled once for each of these and for no other. -/
structure Follows (m : Shared) : Prop where
  tables : ∀ mode id writer, (m.receiver.transmitters.get mode).lookup id = some writer ↔
    Registered w m id ∧ m.receiver.mappedMode (w.attr id) = some mode ∧ writer = w.attr id
  enabled : ∀ mode id, id ∈ m.receiver.receivers.get mode ↔
    Registered w m id ∧ m.receiver.mappedMode (w.attr id) = some mode
  once : ∀ mode, (m.receiver.receivers.get mode).Nodup

/-- Some listener is connected. -/
def Listening (signal : Signal RoleAttributes) : Prop :=
  ∃ slot ∈ signal.slots, slot.connected = true

/-- A thread is to call a connected listener for the message of the writer. -/
def At.Delivers (signal : Signal RoleAttributes) (operateType : OperateType) (id : UInt64) : At → Prop
  | .notify msg => msg = changeMsg w operateType id ∧ Listening signal
  | .call msg rest => msg = changeMsg w operateType id ∧ ∃ slot ∈ rest, Connected signal slot
  | _ => False

/-- A thread is to enable the writer if it is registered. -/
def At.Enters (signal : Signal RoleAttributes) (id : UInt64) : At → Prop
  | .getWriters _ => True
  | .enable _ rest => w.attr id ∈ rest
  | at_ => at_.Delivers w signal .join id

/-- The next step of a thread calls `Enable` or `Disable` for the writer. -/
def Calls (signal : Signal RoleAttributes) (operateType : OperateType) (id : UInt64) (l : At) : Prop :=
  (operateType = .join ∧ ∃ reader rest, l = .enable reader (w.attr id :: rest)) ∨
    ∃ slot rest, l = .call (changeMsg w operateType id) (slot :: rest) ∧ Connected signal slot

/-- What is asked of a step. `Enable` is called for a writer only if it is registered or its LEAVE is still to reach a
listener, and `Disable` only if it is not registered or is still to be enabled. A listener is removed only if what is
still to be done for a writer does not depend on it, and a writer in the tables leaves only while a reader listens. -/
structure Orderly {τ : Type} (s : Config τ Shared At) (e : τ × Input) : Prop where
  enable : ∀ id, e.2 = .next → Calls w s.shared.signal .join id (s.thread e.1) →
    Registered w s.shared id ∨ ∃ t, (s.thread t).Delivers w s.shared.signal .leave id
  disable : ∀ id, e.2 = .next → Calls w s.shared.signal .leave id (s.thread e.1) →
    ¬ Registered w s.shared id ∨ ∃ t, (s.thread t).Enters w s.shared.signal id
  remove : ∀ reader, e.2 = .leaveTheTopology reader → ∀ id, (w.attr id).getChannelName = attr.getChannelName →
    let signal := s.shared.signal.disconnect reader.changeConn
    (Registered w s.shared id → ¬ s.shared.receiver.Knows (w.attr id) → Listening signal →
      ∃ t, (s.thread t).Enters w signal id) ∧
    (¬ Registered w s.shared id → s.shared.receiver.Knows (w.attr id) → ∃ t, (s.thread t).Delivers w signal .leave id)
  leave : ∀ id, e.2 = .change .leave id → s.shared.receiver.Knows (w.attr id) → Listening s.shared.signal

end

end ReaderTopology

end CyberRT

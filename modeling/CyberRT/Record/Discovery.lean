import CyberRT.Common.Proto
import CyberRT.Lib.Threads
import CyberRT.Record.FileWriterRuns
import CyberRT.Record.Writer

namespace CyberRT
open Concur

/-- The attributes that a writer announces, with the type and the descriptor of its messages. -/
structure WriterAttributes extends RoleAttributes where
  messageType : Option String
  protoDesc : Option String
  deriving DecidableEq

namespace WriterAttributes

def getMessageType (attr : WriterAttributes) : String :=
  attr.messageType.getD ""

def getProtoDesc (attr : WriterAttributes) : String :=
  attr.protoDesc.getD ""

end WriterAttributes

namespace Record.Recorder

/-- Which channels a `Recorder` is made for. -/
structure Options where
  allChannels : Bool
  whiteChannels : List String
  blackChannels : List String

namespace Discovery

/-- The recorder, its node and the writers that are registered. `starting` says that `Start` was called, and
`listening` that the change listener is connected. -/
structure Shared where
  channelWriters : List WriterAttributes
  listening : Bool
  channelReaderMap : Table String Nat
  nodeReaders : Table String Nat
  writer : RecordWriter
  starting : Bool
  isStarted : Bool

def Shared.init (pb : Protobuf) (header : Header) : Shared :=
  ⟨[], false, ∅, ∅, .openFile pb header, false, false⟩

/-- Who calls `FindNewChannel`: the listener, or `InitReadersImpl` with its list of writers and those still to come. -/
inductive Caller
  | topologyCallback
  | initReaders (roleAttrVec rest : List WriterAttributes)

inductive At
  | idle
  | getWriters
  | initReaders (roleAttrVec rest : List WriterAttributes)
  | listened
  /-- The registry was updated, and the listeners are to be called. -/
  | notify (role : RoleType) (attr : WriterAttributes)
  | find (attr : WriterAttributes) (caller : Caller)
  | writeChannel (attr : WriterAttributes) (caller : Caller)
  | createReader (attr : WriterAttributes) (caller : Caller)
  | store (attr : WriterAttributes) (reader : Nat) (caller : Caller)

def Caller.back : Caller → At
  | topologyCallback => .idle
  | initReaders roleAttrVec rest => .initReaders roleAttrVec rest

inductive Input
  | start
  /-- The JOIN of a role by another process comes in. -/
  | join (role : RoleType) (attr : WriterAttributes)
  | next
  /-- A message is recorded, or a thread of the file writer goes on. -/
  | writer (e : RecordWriter.Event)

/-- What a role that joins has: the fields that the channel manager checks, and a channel name that is not empty, as
`NodeChannelImpl` makes sure. -/
def Announced (attr : WriterAttributes) : Prop :=
  attr.channelName.isSome ∧ attr.channelId.isSome ∧ attr.id.isSome ∧ attr.getChannelName ≠ ""

instance (attr : WriterAttributes) : Decidable (Announced attr) :=
  inferInstanceAs (Decidable (_ ∧ _))

/-- The tests of `FindNewChannel` on the attributes. -/
def accepts (o : Options) (attr : WriterAttributes) : Bool :=
  if !attr.channelName.isSome || attr.getChannelName == "" then false
  else if !attr.messageType.isSome || attr.getMessageType == "" then false
  else if !attr.protoDesc.isSome || attr.getProtoDesc == "" then false
  else if !o.allChannels && !o.whiteChannels.contains attr.getChannelName then false
  else if o.blackChannels.contains attr.getChannelName then false
  else true

variable (pb : Protobuf) (o : Options)

/-- The next step of a thread. The node makes no second reader of a channel. -/
def next (m : Shared) : At → Option (Shared × At)
  | .idle => none
  | .getWriters => some (m, .initReaders m.channelWriters m.channelWriters)
  | .initReaders roleAttrVec (attr :: rest) => some (m, .find attr (.initReaders roleAttrVec rest))
  | .initReaders _ [] => some ({ m with listening := true }, .listened)
  | .listened => some ({ m with isStarted := true }, .idle)
  | .notify role attr =>
    if m.listening then
      if role ≠ .writer then some (m, .idle) else some (m, .find attr .topologyCallback)
    else some (m, .idle)
  | .find attr caller =>
    if accepts o attr then
      if attr.getChannelName ∈ m.channelReaderMap then some (m, caller.back) else some (m, .writeChannel attr caller)
    else some (m, caller.back)
  | .writeChannel attr caller =>
    (m.writer.step pb (.writeChannel attr.getChannelName attr.getMessageType attr.getProtoDesc)).map fun writer =>
      ({ m with writer }, .createReader attr caller)
  | .createReader attr caller =>
    if attr.getChannelName ∈ m.nodeReaders then some (m, caller.back)
    else
      let reader := m.nodeReaders.size
      some ({ m with nodeReaders := m.nodeReaders.insert attr.getChannelName reader }, .store attr reader caller)
  | .store attr reader caller =>
    some ({ m with channelReaderMap := m.channelReaderMap.insert attr.getChannelName reader }, caller.back)

/-- `Start` fails if a channel is in both lists, and a recorder is started once. -/
def act (m : Shared) : At → Input → Option (Shared × At)
  | .idle, .start =>
    if m.starting then none
    else if o.whiteChannels.any fun channelName => o.blackChannels.contains channelName then some (m, .idle)
    else some ({ m with starting := true }, .getWriters)
  | .idle, .join role attr =>
    if Announced attr then
      let channelWriters := if role = .writer then m.channelWriters ++ [attr] else m.channelWriters
      some ({ m with channelWriters }, .notify role attr)
    else none
  | .idle, .writer (.writeChannel ..) => none
  | .idle, .writer .close => none
  | .idle, .writer e => (m.writer.step pb e).map fun writer => ({ m with writer }, .idle)
  | at_, .next => next pb o m at_
  | _, _ => none

section Machine
variable (τ : Type) [DecidableEq τ]

/-- One thread starts the recorder, and any number of others bring JOIN messages and record, in any interleaving. -/
def machine (header : Header) : Machine (Config τ Shared At) (τ × Input) :=
  Config.machine (.init pb header) (fun _ => .idle) (act pb o)

end Machine

/-- The channels to record: a writer is registered that has a message type and a descriptor. -/
def Eligible (m : Shared) (channelName : String) : Prop :=
  (∃ attr ∈ m.channelWriters, attr.getChannelName = channelName ∧ attr.getMessageType ≠ "" ∧
    attr.getProtoDesc ≠ "") ∧
  (o.allChannels = true ∨ channelName ∈ o.whiteChannels) ∧ channelName ∉ o.blackChannels

/-- The sections of a channel in the file that is written. -/
def Shared.sections (m : Shared) (channelName : String) : List Channel :=
  m.writer.file.writer.storedChannels.filter fun c => c.name = channelName

/-- Every eligible channel has its reader and its one section, and no other channel has either. -/
structure Complete (m : Shared) : Prop where
  readers : ∀ channelName, channelName ∈ m.channelReaderMap ↔ Eligible o m channelName
  once : ∀ channelName, Eligible o m channelName → (m.sections channelName).length = 1
  none_ : ∀ channelName, ¬ Eligible o m channelName → m.sections channelName = []

/-- When the change listener is added, every writer registered for a channel to record has a companion on its channel
in the list of writers that was taken, or among those whose JOIN has yet to call the listeners. -/
def NoneMissed {τ : Type} (s : Config τ Shared At) (e : τ × Input) : Prop :=
  ∀ roleAttrVec, s.thread e.1 = .initReaders roleAttrVec [] → ∀ attr ∈ s.shared.channelWriters, accepts o attr →
    ∃ companion, accepts o companion ∧ companion.getChannelName = attr.getChannelName ∧
      (companion ∈ roleAttrVec ∨ ∃ t, s.thread t = .notify .writer companion)

end Discovery

end Record.Recorder

end CyberRT

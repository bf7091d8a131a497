import CyberRT.Record.OldFile
import CyberRT.Record.Recoverer

namespace CyberRT.Record
open Posix Loop

namespace Content

/-- The sections that lie entirely in the given number of bytes. -/
def inside (pb : Protobuf) : Nat → List Content → List Content
  | _, [] => []
  | room, content :: contents =>
    if (content.bytes pb).length ≤ room then content :: inside pb (room - (content.bytes pb).length) contents else []

end Content

namespace Recoverer
open RecordFileReader

variable {pb : Protobuf} {r : Recoverer}

/-- What the writer is called with for a section. -/
def take (r : Recoverer) : Content → Recoverer
  | .channel c => r.declare c
  | .chunkBody c => { r with calls := r.calls ++ c.messages.map .writeMessage }
  | .chunkHeader _ | .index _ => r

/-- The recoverer with another reader. -/
def read (r : Recoverer) (f : RecordFileReader) : Recoverer :=
  { r with reader := f }

@[simp] theorem read_read (r : Recoverer) (f g : RecordFileReader) : (r.read f).read g = r.read g := rfl

/-- The loop, whose rounds need no fuel. -/
abbrev Scans (pb : Protobuf) (r : Recoverer) (result : Bool × List WriterCall) : Prop :=
  Ends (fun _ r => some (round pb r)) r result

theorem Scans.next {r' : Recoverer} {result : Bool × List WriterCall} (step : round pb r = .inl r')
    (rest : Scans pb r' result) : Scans pb r result :=
  Ends.next (.of_eq fun _ => by rw [step]) rest

theorem Scans.last {result : Bool × List WriterCall} (step : round pb r = .inr result) : Scans pb r result :=
  Ends.last (.of_eq fun _ => by rw [step])

def messagesOf (calls : List WriterCall) : List SingleMessage :=
  calls.filterMap fun
    | .writeMessage message => some message
    | .writeChannel _ => none

def channelsOf (calls : List WriterCall) : List Channel :=
  calls.filterMap fun
    | .writeMessage _ => none
    | .writeChannel channel => some channel

theorem messagesOf_messages (messages : List SingleMessage) :
    messagesOf (messages.map .writeMessage) = messages := by
  simp [messagesOf, List.filterMap_map]

theorem channelsOf_messages (messages : List SingleMessage) : channelsOf (messages.map .writeMessage) = [] := by
  simp [channelsOf, List.filterMap_map]

@[simp] theorem messagesOf_append (calls more : List WriterCall) :
    messagesOf (calls ++ more) = messagesOf calls ++ messagesOf more :=
  List.filterMap_append

@[simp] theorem channelsOf_append (calls more : List WriterCall) :
    channelsOf (calls ++ more) = channelsOf calls ++ channelsOf more :=
  List.filterMap_append

/-- Of the channels that were given, one with each name was declared. -/
structure Declared (given : List Channel) (r : Recoverer) : Prop where
  vec : r.channelVec = (channelsOf r.calls).map Channel.name
  once : r.channelVec.Nodup
  only : ∀ c ∈ channelsOf r.calls, c ∈ given
  all : ∀ c ∈ given, c.name ∈ r.channelVec

theorem Declared.declare {given : List Channel} (declared : Declared given r) (channel : Channel) :
    Declared (given ++ [channel]) (r.declare channel) := by
  obtain ⟨vec, once, only, all⟩ := declared
  unfold Recoverer.declare
  by_cases known : channel.name ∈ r.channelVec
  · rw [if_pos known]
    refine ⟨vec, once, fun c member => List.mem_append_left _ (only c member), fun c member => ?_⟩
    rcases List.mem_append.mp member with old | new
    · exact all c old
    · obtain rfl := List.mem_singleton.mp new
      exact known
  · rw [if_neg known]
    refine ⟨?_, ?_, ?_, ?_⟩
    · simp [vec, channelsOf]
    · exact List.nodup_append.mpr ⟨once, List.nodup_singleton _, by
        rintro name old _ new rfl
        exact known (List.mem_singleton.mp new ▸ old)⟩
    · intro c member
      rw [channelsOf_append] at member
      rcases List.mem_append.mp member with old | new
      · exact List.mem_append_left _ (only c old)
      · exact List.mem_append_right _ new
    · intro c member
      rcases List.mem_append.mp member with old | new
      · exact List.mem_append_left _ (all c old)
      · obtain rfl := List.mem_singleton.mp new
        exact List.mem_append_right _ (List.mem_singleton_self _)

/-- Of an older file, a section header at most is left behind what was written, or the index stands before it. -/
def Clean (pb : Protobuf) (s : RecordFileWriter.State) (cut : List UInt8) : Prop :=
  cut.length < RecordFileWriter.endOfSections pb s.writer + sizeofSection ∨ s.pc.indexed = true

/-- A channel, a message, and `Close`. -/
def oneMessage : List RecordFileWriter.Event :=
  [.writeChannel ⟨"a", "t", ""⟩, .writeMessage ⟨"a", 5, [1]⟩, .close, .go, .go, .flush, .go, .go, .go]

def oneMessageProtobuf : Protobuf :=
  Wire.protobuf ⟨[.empty, RecordFileWriter.oneMessageHeader], [⟨5, 5, 1, 1⟩], [⟨[⟨"a", 5, [1]⟩]⟩],
    [RecordFileWriter.oneMessageIndex], [⟨"a", "t", ""⟩]⟩

theorem oneMessageProtobuf_fits : RecordFileWriter.HeaderFits oneMessageProtobuf :=
  RecordFileWriter.wire_headerFits _

end Recoverer

end CyberRT.Record

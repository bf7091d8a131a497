import CyberRT.Lib.Loop
import CyberRT.Record.FileReader

namespace CyberRT.Record

/-- A call on a `RecordFileWriter`. -/
inductive WriterCall
  | writeChannel (channel : Channel)
  | writeMessage (message : SingleMessage)
  deriving DecidableEq

structure Spliter where
  whiteChannels : List String
  blackChannels : List String
  beginTime : Nat
  endTime : Nat

namespace Spliter

def chosen (sp : Spliter) (channelName : String) : Bool :=
  (sp.whiteChannels.isEmpty || channelName ∈ sp.whiteChannels) && channelName ∉ sp.blackChannels

/-- The messages of a chunk that are written. -/
def select (sp : Spliter) (messages : List SingleMessage) : List WriterCall :=
  (messages.filter fun message =>
    sp.chosen message.channelName && !(message.time < sp.beginTime || message.time > sp.endTime)).map .writeMessage

/-- A round of the loop over the sections, with `skip_next_chunk_body`: what it writes, and how the loop goes on. -/
def sectionRound (pb : Protobuf) (sp : Spliter) (s : RecordFileReader × Bool) :
    List WriterCall × (RecordFileReader × Bool ⊕ Bool) :=
  let (f, skip) := s
  if f.endOfFile then ([], .inr true)
  else
    match f.readSection with
    | (none, _) => ([], .inr false)
    | (some s, f) =>
      match SectionType.ofCode s.type with
      | some .index => ([], .inr true)
      | some .channel =>
        match f.readSectionOf pb.channel s.size ⟨"", "", ""⟩ with
        | (false, _, _) => ([], .inr false)
        | (true, channel, f) => (if sp.chosen channel.name then [.writeChannel channel] else [], .inl (f, skip))
      | some .chunkHeader =>
        match f.readSectionOf pb.chunkHeader s.size ⟨0, 0, 0, 0⟩ with
        | (false, _, _) => ([], .inr false)
        | (true, header, f) =>
          ([], .inl (f, skip || (sp.beginTime > header.endTime || sp.endTime < header.beginTime)))
      | some .chunkBody =>
        if skip then ([], .inl ((f.skipSection s.size).2, false))
        else
          match f.readSectionOf pb.chunkBody s.size ⟨[]⟩ with
          | (false, _, _) => ([], .inr false)
          | (true, body, f) => (sp.select body.messages, .inl (f, skip))
      | some .header | none => ([], .inl (f, skip))

/-- A round, with the calls of the writer so far. -/
def writingRound (pb : Protobuf) (sp : Spliter) (s : (RecordFileReader × Bool) × List WriterCall) :
    (RecordFileReader × Bool) × List WriterCall ⊕ Bool × List WriterCall :=
  match sp.sectionRound pb s.1 with
  | (calls, .inl next) => .inl (next, s.2 ++ calls)
  | (calls, .inr result) => .inr (result, s.2 ++ calls)

/-- The loop over the sections. -/
def sections (pb : Protobuf) (sp : Spliter) (fuel : Nat) (f : RecordFileReader) : Option (Bool × List WriterCall) :=
  Loop.run (fun s => some (sp.writingRound pb s)) fuel ((f, false), [])

/-- `Proc` on an input file with the given bytes, if the output file can be opened and its header written. -/
def proc (pb : Protobuf) (sp : Spliter) (fuel : Nat) (bytes : List UInt8) : Option (Bool × List WriterCall) :=
  if sp.beginTime ≥ sp.endTime then some (false, [])
  else if sp.whiteChannels.any fun channel => channel ∈ sp.blackChannels then some (false, [])
  else
    match RecordFileReader.openFile pb bytes with
    | (false, _) => some (false, [])
    | (true, f) =>
      if sp.beginTime > f.header.endTime ∨ sp.endTime < f.header.beginTime then some (false, [])
      else sp.sections pb fuel f.reset.2

end Spliter

end CyberRT.Record

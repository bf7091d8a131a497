import CyberRT.Lib.Loop
import CyberRT.Record.FileReader

namespace CyberRT.Record

/-- A `RecordReader` over a file that was opened. -/
structure RecordReader where
  isValid : Bool
  header : Header
  fileReader : RecordFileReader
  chunk : ChunkBody
  messageIndex : Nat
  reachEnd : Bool

namespace RecordReader

/-- The constructor, on a file with the given bytes. The table of the channels is left out. -/
def create (pb : Protobuf) (bytes : List UInt8) : RecordReader :=
  match RecordFileReader.openFile pb bytes with
  | (false, f) => ⟨false, .empty, f, ⟨[]⟩, 0, false⟩
  | (true, f) => ⟨true, f.header, (f.readIndex pb).2.reset.2, ⟨[]⟩, 0, false⟩

def reset (r : RecordReader) : RecordReader :=
  { r with fileReader := r.fileReader.reset.2, reachEnd := false, messageIndex := 0, chunk := ⟨[]⟩ }

/-- A round of the loop of `ReadNextChunk`, with `skip_next_chunk_body`. -/
def nextChunkRound (pb : Protobuf) (beginTime endTime : Nat) (s : RecordReader × Bool) :
    RecordReader × Bool ⊕ Bool × RecordReader :=
  let (r, skip) := s
  if r.reachEnd then .inr (false, r)
  else
    match r.fileReader.readSection with
    | (none, f) => .inr (false, { r with fileReader := f })
    | (some s, f) =>
      match SectionType.ofCode s.type with
      | some .index => .inl ({ r with fileReader := (f.skipSection s.size).2, reachEnd := true }, skip)
      | some .channel =>
        match f.readSectionOf pb.channel s.size ⟨"", "", ""⟩ with
        | (false, _, f) => .inr (false, { r with fileReader := f })
        | (true, _, f) => .inl ({ r with fileReader := f }, skip)
      | some .chunkHeader =>
        match f.readSectionOf pb.chunkHeader s.size ⟨0, 0, 0, 0⟩ with
        | (false, _, f) => .inr (false, { r with fileReader := f })
        | (true, header, f) =>
          if header.beginTime > endTime then .inr (false, { r with fileReader := f })
          else .inl ({ r with fileReader := f }, skip || decide (header.endTime < beginTime))
      | some .chunkBody =>
        if skip then .inl ({ r with fileReader := (f.skipSection s.size).2 }, false)
        else
          match f.readSectionOf pb.chunkBody s.size ⟨[]⟩ with
          | (ok, chunk, f) => .inr (ok, { r with chunk := chunk, fileReader := f })
      | some .header | none => .inr (false, { r with fileReader := f })

/-- `ReadNextChunk`: whether a chunk was read, and the reader. -/
def readNextChunk (pb : Protobuf) (fuel : Nat) (r : RecordReader) (beginTime endTime : Nat) :
    Option (Bool × RecordReader) :=
  Loop.run (fun s => some (nextChunkRound pb beginTime endTime s)) fuel (r, false)

/-- A round of `ReadMessage`: of its loop over the messages of the chunk, or else the reading of the next chunk. -/
def messageRound (pb : Protobuf) (beginTime endTime fuel : Nat) (r : RecordReader) :
    Option (RecordReader ⊕ Option SingleMessage × RecordReader) :=
  match r.chunk.messages[r.messageIndex]? with
  | some message =>
    if message.time > endTime then some (.inr (none, r))
    else
      let r := { r with messageIndex := r.messageIndex + 1 }
      if message.time < beginTime then some (.inl r) else some (.inr (some message, r))
  | none =>
    (readNextChunk pb fuel r beginTime endTime).map fun
      | (true, r) => .inl { r with messageIndex := 0 }
      | (false, r) => .inr (none, r)

/-- `ReadMessage`: the message, if there is one, and the reader. -/
def readMessage (pb : Protobuf) (fuel : Nat) (r : RecordReader) (beginTime endTime : Nat) :
    Option (Option SingleMessage × RecordReader) :=
  if !r.isValid then some (none, r)
  else if beginTime > r.header.endTime ∨ endTime < r.header.beginTime then some (none, r)
  else Loop.run (messageRound pb beginTime endTime fuel) fuel r

end RecordReader

end CyberRT.Record

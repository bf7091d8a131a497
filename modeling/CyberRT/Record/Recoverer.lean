import CyberRT.Record.Spliter

namespace CyberRT.Record

/-- A `Recoverer` in its loop: the reader, the names in `channel_vec_`, and the calls of the writer so far. -/
structure Recoverer where
  reader : RecordFileReader
  channelVec : List String
  calls : List WriterCall

namespace Recoverer

/-- A channel is written once. -/
def declare (r : Recoverer) (channel : Channel) : Recoverer :=
  if channel.name ∈ r.channelVec then r
  else { r with channelVec := r.channelVec ++ [channel.name], calls := r.calls ++ [.writeChannel channel] }

/-- The channel of an entry of the index, which has no field set if the entry holds another cache. -/
def channelOf (single : SingleIndex) : Option Channel :=
  if single.type ≠ .channel then none
  else
    match single.cache with
    | .channel cache => some ⟨cache.name, cache.messageType, cache.protoDesc⟩
    | .chunkHeader _ | .chunkBody _ => some ⟨"", "", ""⟩

/-- The channels of the index are written first. -/
def declareIndex (r : Recoverer) : Recoverer :=
  (r.reader.index.indexes.filterMap channelOf).foldl declare r

/-- A round of the loop through the file. -/
def round (pb : Protobuf) (r : Recoverer) : Recoverer ⊕ Bool × List WriterCall :=
  if r.reader.endOfFile then .inr (true, r.calls)
  else
    match r.reader.readSection with
    | (none, f) => .inl { r with reader := f }
    | (some s, f) =>
      match SectionType.ofCode s.type with
      | some .index => .inr (true, r.calls)
      | some .channel =>
        match f.readSectionOf pb.channel s.size ⟨"", "", ""⟩ with
        | (false, _, f) => .inl { r with reader := f }
        | (true, channel, f) => .inl { r.declare channel with reader := f }
      | some .chunkHeader =>
        .inl { r with reader := (f.readSectionOf pb.chunkHeader s.size ⟨0, 0, 0, 0⟩).2.2 }
      | some .chunkBody =>
        match f.readSectionOf pb.chunkBody s.size ⟨[]⟩ with
        | (false, _, f) => .inl { r with reader := f }
        | (true, body, f) => .inl { r with reader := f, calls := r.calls ++ body.messages.map .writeMessage }
      | some .header | none => .inr (false, r.calls)

/-- `Proc` on an input file with the given bytes, if the output file can be opened and its header written. -/
def proc (pb : Protobuf) (fuel : Nat) (bytes : List UInt8) : Option (Bool × List WriterCall) :=
  match RecordFileReader.openFile pb bytes with
  | (false, _) => some (false, [])
  | (true, f) =>
    let r : Recoverer :=
      match f.readIndex pb with
      | (false, f) => ⟨f, [], []⟩
      | (true, f) => declareIndex ⟨f, [], []⟩
    Loop.run (fun r => some (round pb r)) fuel { r with reader := r.reader.reset.2 }

end Recoverer

end CyberRT.Record

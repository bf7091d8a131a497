import CyberRT.Record.Format

namespace CyberRT.Record.Wire

-- The bytes into which protobuf serializes the messages of a record, whose fields are all set.

/-- A number in groups of seven bits, the lowest first. -/
def varintGroups : Nat → Nat → List UInt8
  | 0, _ => []
  | groups + 1, n => if n < 128 then [n.toUInt8] else (n % 128 + 128).toUInt8 :: varintGroups groups (n / 128)

def varint (n : Nat) : List UInt8 :=
  varintGroups 10 n

theorem varintGroups_length (groups n : Nat) : (varintGroups groups n).length ≤ groups := by
  induction groups generalizing n with
  | zero => exact Nat.le_refl 0
  | succ groups ih =>
    rw [varintGroups]
    split
    · simp
    · rw [List.length_cons]
      exact Nat.succ_le_succ (ih _)

def uint (field n : Nat) : List UInt8 :=
  varint (8 * field) ++ varint n

theorem uint_length (field n : Nat) : (uint field n).length ≤ 20 := by
  have first := varintGroups_length 10 (8 * field)
  have last := varintGroups_length 10 n
  simp only [uint, varint, List.length_append]
  omega

def bytes (field : Nat) (data : List UInt8) : List UInt8 :=
  varint (8 * field + 2) ++ varint data.length ++ data

def string (field : Nat) (s : String) : List UInt8 :=
  bytes field (s.toList.flatMap String.utf8EncodeChar)

def singleMessage (m : SingleMessage) : List UInt8 :=
  string 1 m.channelName ++ uint 2 m.time ++ bytes 3 m.content

def chunkHeader (h : ChunkHeader) : List UInt8 :=
  uint 1 h.beginTime ++ uint 2 h.endTime ++ uint 3 h.messageNumber ++ uint 4 h.rawSize

def chunkBody (b : ChunkBody) : List UInt8 :=
  b.messages.flatMap fun m => bytes 1 (singleMessage m)

def channel (c : Channel) : List UInt8 :=
  string 1 c.name ++ string 2 c.messageType ++ string 3 c.protoDesc

def cache : Cache → List UInt8
  | .channel c => bytes 101
      (uint 1 c.messageNumber ++ string 2 c.name ++ string 3 c.messageType ++ string 4 c.protoDesc)
  | .chunkHeader c => bytes 102 (uint 1 c.messageNumber ++ uint 2 c.beginTime ++ uint 3 c.endTime ++ uint 4 c.rawSize)
  | .chunkBody c => bytes 103 (uint 1 c.messageNumber)

def index (i : Index) : List UInt8 :=
  i.indexes.flatMap fun single => bytes 1 (uint 1 single.type.code ++ uint 2 single.position ++ cache single.cache)

def compress : CompressType → Nat
  | .none => 0
  | .bz2 => 1
  | .lz4 => 2

def header (h : Header) : List UInt8 :=
  uint 1 h.majorVersion ++ uint 2 h.minorVersion ++ uint 3 (compress h.compress) ++ uint 4 h.chunkInterval ++
    uint 5 h.segmentInterval ++ uint 6 h.indexPosition ++ uint 7 h.chunkNumber ++ uint 8 h.channelNumber ++
    uint 9 h.beginTime ++ uint 10 h.endTime ++ uint 11 h.messageNumber ++ uint 12 h.size ++
    uint 13 (if h.isComplete then 1 else 0) ++ uint 14 h.chunkRawSize ++ uint 15 h.segmentRawSize

/-- A header is small, whatever its numbers are. -/
theorem header_length (h : Header) : (header h).length ≤ HEADER_LENGTH := by
  have field := uint_length
  simp only [header, List.length_append, HEADER_LENGTH]
  have h1 := field 1 h.majorVersion
  have h2 := field 2 h.minorVersion
  have h3 := field 3 (compress h.compress)
  have h4 := field 4 h.chunkInterval
  have h5 := field 5 h.segmentInterval
  have h6 := field 6 h.indexPosition
  have h7 := field 7 h.chunkNumber
  have h8 := field 8 h.channelNumber
  have h9 := field 9 h.beginTime
  have h10 := field 10 h.endTime
  have h11 := field 11 h.messageNumber
  have h12 := field 12 h.size
  have h13 := field 13 (if h.isComplete then 1 else 0)
  have h14 := field 14 h.chunkRawSize
  have h15 := field 15 h.segmentRawSize
  omega

/-- The code of a message type, as far as the bytes of the known messages are parsed. -/
def codec {T : Type} (encode : T → List UInt8) (known : List T) (unset : T) : Codec T where
  encode := encode
  parse _ data :=
    match known.find? fun message => encode message == data with
    | some message => (message, .parsed)
    | none => (unset, .failed false)
  taken _ rest := min 8192 rest.length

/-- The messages that are parsed. -/
structure Known where
  headers : List Header
  chunkHeaders : List ChunkHeader
  chunkBodies : List ChunkBody
  indexes : List Index
  channels : List Channel

def Known.none : Known :=
  ⟨[], [], [], [], []⟩

def protobuf (known : Known) : Protobuf where
  header := codec header known.headers .empty
  chunkHeader := codec chunkHeader known.chunkHeaders ⟨0, 0, 0, 0⟩
  chunkBody := codec chunkBody known.chunkBodies ⟨[]⟩
  index := codec index known.indexes ⟨[]⟩
  channel := codec channel known.channels ⟨"", "", ""⟩

end CyberRT.Record.Wire

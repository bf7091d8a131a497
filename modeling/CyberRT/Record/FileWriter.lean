import CyberRT.Lib.Machine
import CyberRT.Lib.Table
import CyberRT.Record.Format

namespace CyberRT.Record
open Concur Posix

structure Chunk where
  header : ChunkHeader
  body : ChunkBody
  deriving DecidableEq

namespace Chunk

/-- A chunk that was cleared. -/
def clear : Chunk := ⟨⟨0, 0, 0, 0⟩, ⟨[]⟩⟩

/-- The numbers are natural numbers: a chunk does not hold 2^64 messages or bytes. -/
def add (c : Chunk) (message : SingleMessage) : Chunk :=
  let beginTime := if c.header.beginTime = 0 then message.time else c.header.beginTime
  { header :=
      { beginTime := if beginTime > message.time then message.time else beginTime
        endTime := if c.header.endTime < message.time then message.time else c.header.endTime
        messageNumber := c.header.messageNumber + 1
        rawSize := c.header.rawSize + message.content.length }
    body := ⟨c.body.messages ++ [message]⟩ }

def empty (c : Chunk) : Bool :=
  c.header.messageNumber == 0

end Chunk

/-- What a section that comes after the header of the file holds. -/
inductive Content
  | channel (channel : Channel)
  | chunkHeader (header : ChunkHeader)
  | chunkBody (body : ChunkBody)
  | index (index : Index)
  deriving DecidableEq

namespace Content

def type : Content → SectionType
  | .channel _ => .channel
  | .chunkHeader _ => .chunkHeader
  | .chunkBody _ => .chunkBody
  | .index _ => .index

def encode (pb : Protobuf) : Content → List UInt8
  | .channel c => pb.channel.encode c
  | .chunkHeader c => pb.chunkHeader.encode c
  | .chunkBody c => pb.chunkBody.encode c
  | .index c => pb.index.encode c

end Content

/-- A `RecordFileWriter`. The history is that of the sections written after the header of the file; the offset and the
counts in the header are natural numbers, as no file has 2^63 bytes. -/
structure RecordFileWriter where
  fd : Fd
  header : Header
  index : Index
  isWriting : Bool
  chunkActive : Chunk
  chunkFlush : Chunk
  channelMessageNumberMap : Table String Nat
  sections : List Content

namespace RecordFileWriter

/-- `Open` of a path where there is a file with the bytes `old`. It is opened without being cut off, so that its bytes
stay where nothing is written over them. Where there is no file, one without bytes is created. -/
def openFile (old : List UInt8) : RecordFileWriter :=
  ⟨.opened old, .empty, ⟨[]⟩, true, .clear, .clear, ∅, []⟩

/-- `WriteSection` of anything but the header. -/
def writeSection (pb : Protobuf) (w : RecordFileWriter) (content : Content) : RecordFileWriter :=
  let data := content.encode pb
  let fd := (w.fd.write (Section.encode content.type data.length)).write data
  { w with fd := fd, header := { w.header with size := fd.pos }, sections := w.sections ++ [content] }

/-- What is written behind the header, to fill its area. -/
def blank : List UInt8 :=
  48 :: List.replicate (HEADER_LENGTH - 1) 0

/-- The bytes of the area of the header. -/
def headerArea (pb : Protobuf) (header : Header) : List UInt8 :=
  let data := pb.header.encode header
  Section.encode .header data.length ++ data ++ blank.take (HEADER_LENGTH - data.length)

theorem headerArea_length {pb : Protobuf} {header : Header} (fits : pb.header.byteSizeLong header ≤ HEADER_LENGTH) :
    (headerArea pb header).length = sizeofSection + HEADER_LENGTH := by
  unfold Codec.byteSizeLong at fits
  simp only [headerArea, blank, List.length_append, Section.encode_length, List.length_take, List.length_cons,
    List.length_replicate]
  unfold HEADER_LENGTH at fits ⊢
  omega

/-- The header is written at the beginning of the file. -/
def writeHeader (pb : Protobuf) (w : RecordFileWriter) (header : Header) : RecordFileWriter :=
  let fd := { w.fd with pos := 0 }.write (headerArea pb header)
  { w with fd := fd, header := { header with size := fd.pos } }

def addIndex (w : RecordFileWriter) (single : SingleIndex) : RecordFileWriter :=
  { w with index := ⟨w.index.indexes ++ [single]⟩ }

def writeChannel (pb : Protobuf) (w : RecordFileWriter) (channel : Channel) : RecordFileWriter :=
  let pos := w.fd.pos
  let w := w.writeSection pb (.channel channel)
  let w := { w with header := { w.header with channelNumber := w.header.channelNumber + 1 } }
  w.addIndex ⟨.channel, pos, .channel ⟨0, channel.name, channel.messageType, channel.protoDesc⟩⟩

def writeChunk (pb : Protobuf) (w : RecordFileWriter) (header : ChunkHeader) (body : ChunkBody) : RecordFileWriter :=
  let pos := w.fd.pos
  let w := w.writeSection pb (.chunkHeader header)
  let w := w.addIndex ⟨.chunkHeader, pos,
    .chunkHeader ⟨header.messageNumber, header.beginTime, header.endTime, header.rawSize⟩⟩
  let pos := w.fd.pos
  let w := w.writeSection pb (.chunkBody body)
  let w := { w with
    header :=
      { w.header with
        chunkNumber := w.header.chunkNumber + 1
        beginTime := if w.header.beginTime = 0 then header.beginTime else w.header.beginTime
        endTime := header.endTime
        messageNumber := w.header.messageNumber + header.messageNumber } }
  w.addIndex ⟨.chunkBody, pos, .chunkBody ⟨body.messages.length⟩⟩

/-- `WriteMessage` up to the swap of the chunks, and whether there is one. The chunk does not begin after the message
that was added to it. -/
def addMessage (w : RecordFileWriter) (message : SingleMessage) : Bool × RecordFileWriter :=
  let chunk := w.chunkActive.add message
  let number := (w.channelMessageNumberMap.lookup message.channelName).elim 1 (· + 1)
  let w := { w with
    chunkActive := chunk
    channelMessageNumberMap := w.channelMessageNumberMap.insert message.channelName number }
  let needFlush :=
    (w.header.chunkInterval > 0 && message.time - chunk.header.beginTime > w.header.chunkInterval) ||
    (w.header.chunkRawSize > 0 && chunk.header.rawSize > w.header.chunkRawSize)
  (needFlush, w)

def swap (w : RecordFileWriter) : RecordFileWriter :=
  { w with chunkActive := w.chunkFlush, chunkFlush := w.chunkActive }

/-- A round of `Flush` that finds a chunk. -/
def flush (pb : Protobuf) (w : RecordFileWriter) : RecordFileWriter :=
  { w.writeChunk pb w.chunkFlush.header w.chunkFlush.body with chunkFlush := .clear }

/-- The numbers of messages are filled into the entries of the channels. -/
def countChannel (map : Table String Nat) (single : SingleIndex) : SingleIndex :=
  match single.type, single.cache with
  | .channel, .channel cache =>
    match map.lookup cache.name with
    | some number => { single with cache := .channel { cache with messageNumber := number } }
    | none => single
  | _, _ => single

def writeIndex (pb : Protobuf) (w : RecordFileWriter) : RecordFileWriter :=
  let index : Index := ⟨w.index.indexes.map (countChannel w.channelMessageNumberMap)⟩
  let w := { w with index := index, header := { w.header with indexPosition := w.fd.pos } }
  w.writeSection pb (.index index)

/-- Where the caller stands: outside of a call; in `WriteMessage` before the swap; in `Close`, which waits for the flush
thread, swaps a last time, waits again, and then writes the index and the header. -/
inductive Pc
  | ready
  | swapping
  | waiting
  | lastSwap
  | waitingLast
  | writingIndex
  | writingHeader
  | closed
  deriving DecidableEq

/-- The writer, with the messages and channels that it was called with. -/
structure State where
  writer : RecordFileWriter
  pc : Pc
  messages : List SingleMessage
  channels : List Channel

/-- A call; the next step of the call, where the waiting loops take rounds; and a round of the flush thread. -/
inductive Event
  | writeChannel (channel : Channel)
  | writeMessage (message : SingleMessage)
  | close
  | go
  | flush
  deriving DecidableEq

namespace State

/-- The next step of a call. -/
def go (pb : Protobuf) (s : State) : Option State :=
  match s.pc with
  | .ready | .closed => none
  | .swapping => some { s with writer := s.writer.swap, pc := .ready }
  | .waiting => some { s with pc := if s.writer.chunkFlush.empty then .lastSwap else .waiting }
  | .lastSwap => some { s with writer := s.writer.swap, pc := .waitingLast }
  | .waitingLast =>
    if s.writer.chunkFlush.empty then
      some { s with writer := { s.writer with isWriting := false }, pc := .writingIndex }
    else some s
  | .writingIndex => some { s with writer := s.writer.writeIndex pb, pc := .writingHeader }
  | .writingHeader =>
    some { s with writer := s.writer.writeHeader pb { s.writer.header with isComplete := true }, pc := .closed }

def writeMessage (s : State) (message : SingleMessage) : State :=
  let result := s.writer.addMessage message
  { s with writer := result.2, pc := if result.1 then .swapping else .ready, messages := s.messages ++ [message] }

end State

def step (pb : Protobuf) (s : State) : Event → Option State
  | .writeChannel channel =>
    if s.pc = .ready then
      some { s with writer := s.writer.writeChannel pb channel, channels := s.channels ++ [channel] }
    else none
  | .writeMessage message => if s.pc = .ready then some (s.writeMessage message) else none
  | .close => if s.pc = .ready then some { s with pc := .waiting } else none
  | .go => s.go pb
  | .flush =>
    if s.writer.isWriting && !s.writer.chunkFlush.empty then some { s with writer := s.writer.flush pb } else none

/-- A path that was opened, with the header of the file written. -/
def startOn (pb : Protobuf) (old : List UInt8) (header : Header) : State :=
  ⟨(openFile old).writeHeader pb header, .ready, [], []⟩

/-- A new file, with its header written. -/
def start (pb : Protobuf) (header : Header) : State :=
  startOn pb [] header

def machine (pb : Protobuf) (header : Header) : Machine State Event where
  init := start pb header
  step := step pb

end RecordFileWriter

end CyberRT.Record

import CyberRT.Record.FileWriter

namespace CyberRT.Record
open Concur

/-- What the caller of a `RecordWriter` waits for: the `WriteMessage` of the file, the `Close` of a segment that is
full, or the last `Close`. -/
inductive Pending
  | none
  | message (message : SingleMessage)
  | splitting
  | closing
  deriving DecidableEq

/-- A segment file: the number in its name, its writer, and the channels that were declared when it ended. -/
structure Segment where
  number : Nat
  file : RecordFileWriter.State
  declared : List Channel

/-- A `RecordWriter` that was opened. The histories are those of the segments that ended, of the messages, and of the
channels in the order in which they were declared. -/
structure RecordWriter where
  header : Header
  fileIndex : Nat
  number : Nat
  file : RecordFileWriter.State
  segmentRawSize : Nat
  segmentBeginTime : Nat
  channelMessageNumberMap : Table String Nat
  channelMessageTypeMap : Table String String
  channelProtoDescMap : Table String String
  isOpened : Bool
  pending : Pending
  segments : List Segment
  messages : List SingleMessage
  declared : List Channel

namespace RecordWriter

inductive Event
  | writeChannel (channelName messageType protoDesc : String)
  | writeMessage (message : SingleMessage)
  | close
  | go
  | flush
  deriving DecidableEq

/-- `Open`: the first file has number 0. No path of a file has an older file on it, whose bytes would stay behind what is
written. -/
def openFile (pb : Protobuf) (header : Header) : RecordWriter :=
  ⟨header, 1, 0, RecordFileWriter.start pb header, 0, 0, ∅, ∅, ∅, true, .none, [], [], []⟩

def onNewMessage (r : RecordWriter) (channelName : String) : RecordWriter :=
  match r.channelMessageNumberMap.lookup channelName with
  | some number => { r with channelMessageNumberMap := r.channelMessageNumberMap.insert channelName (number + 1) }
  | none => r

def onNewChannel (r : RecordWriter) (channelName messageType protoDesc : String) : RecordWriter :=
  { r with
    channelMessageNumberMap := r.channelMessageNumberMap.insert channelName 0
    channelMessageTypeMap := r.channelMessageTypeMap.insert channelName messageType
    channelProtoDescMap := r.channelProtoDescMap.insert channelName protoDesc
    declared := r.declared ++ [⟨channelName, messageType, protoDesc⟩] }

/-- The channels that are written into a new segment. -/
def knownChannels (r : RecordWriter) : List Channel :=
  r.channelMessageNumberMap.entries.map fun item =>
    ⟨item.1, r.channelMessageTypeMap.get item.1, r.channelProtoDescMap.get item.1⟩

def writeChannels (pb : Protobuf) (file : RecordFileWriter.State) (channels : List Channel) : RecordFileWriter.State :=
  channels.foldl (fun file channel =>
    { file with writer := file.writer.writeChannel pb channel, channels := file.channels ++ [channel] }) file

/-- `SplitOutfile`, after the segment was closed. -/
def splitOutfile (pb : Protobuf) (r : RecordWriter) : RecordWriter :=
  let fileIndex := if r.fileIndex > 99999 then 0 else r.fileIndex
  { r with
    fileIndex := fileIndex + 1
    number := fileIndex
    segmentRawSize := 0
    segmentBeginTime := 0
    file := writeChannels pb (RecordFileWriter.start pb r.header) r.knownChannels
    pending := .none
    segments := r.segments ++ [⟨r.number, r.file, r.declared⟩] }

/-- `segment_begin_time_` after a message. -/
def beginTimeWith (r : RecordWriter) (message : SingleMessage) : Nat :=
  let beginTime := if r.segmentBeginTime = 0 then message.time else r.segmentBeginTime
  if beginTime > message.time then message.time else beginTime

/-- `WriteMessage` after the file has taken the message: a segment that is full is closed. The segment does not begin
after the message. -/
def afterMessage (r : RecordWriter) (message : SingleMessage) : RecordWriter :=
  let r := { r with
    segmentRawSize := r.segmentRawSize + message.content.length
    segmentBeginTime := r.beginTimeWith message }
  if (r.header.segmentInterval > 0 ∧ message.time - r.segmentBeginTime > r.header.segmentInterval) ∨
      (r.header.segmentRawSize > 0 ∧ r.segmentRawSize > r.header.segmentRawSize) then
    { r with file := { r.file with pc := .waiting }, pending := .splitting }
  else { r with pending := .none }

/-- The next step of a call: of what it waits for, or what comes after that. -/
def go (pb : Protobuf) (r : RecordWriter) : Option RecordWriter :=
  match r.pending with
  | .none => none
  | .message message =>
    if r.file.pc = .ready then some (r.afterMessage message)
    else (r.file.go pb).map fun file => { r with file := file }
  | .splitting =>
    if r.file.pc = .closed then some (r.splitOutfile pb)
    else (r.file.go pb).map fun file => { r with file := file }
  | .closing =>
    if r.file.pc = .closed then some { r with isOpened := false, pending := .none }
    else (r.file.go pb).map fun file => { r with file := file }

def step (pb : Protobuf) (r : RecordWriter) : Event → Option RecordWriter
  | .writeChannel channelName messageType protoDesc =>
    if r.isOpened ∧ r.pending = .none then
      if channelName ∈ r.channelMessageNumberMap then some r
      else
        (RecordFileWriter.step pb r.file (.writeChannel ⟨channelName, messageType, protoDesc⟩)).map fun file =>
          { r.onNewChannel channelName messageType protoDesc with file := file }
    else none
  | .writeMessage message =>
    if r.isOpened ∧ r.pending = .none then
      (RecordFileWriter.step pb r.file (.writeMessage message)).map fun file =>
        { r.onNewMessage message.channelName with
          file := file, pending := .message message, messages := r.messages ++ [message] }
    else none
  | .close =>
    if r.isOpened ∧ r.pending = .none then
      (RecordFileWriter.step pb r.file .close).map fun file => { r with file := file, pending := .closing }
    else none
  | .go => r.go pb
  | .flush => (RecordFileWriter.step pb r.file .flush).map fun file => { r with file := file }

def machine (pb : Protobuf) (header : Header) : Machine RecordWriter Event where
  init := openFile pb header
  step := step pb

/-- The segment files, of which the last one may still be written. -/
def files (r : RecordWriter) : List Segment :=
  r.segments ++ [⟨r.number, r.file, r.declared⟩]

end RecordWriter

end CyberRT.Record

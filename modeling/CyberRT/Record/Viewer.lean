import CyberRT.Record.Reader

namespace CyberRT.Record

def kStepTimeNanoSec : Nat := 1000000000

def kBufferMinSize : Nat := 128

/-- A `RecordViewer`. The readers are kept with their flags of `readers_finished_`; the buffer is a multimap, whose
messages are in the order of their times and those of one time in the order in which they came. -/
structure RecordViewer where
  beginTime : Nat
  endTime : Nat
  channels : List String
  readers : List (RecordReader × Bool)
  currBeginTime : Nat
  msgBuffer : List SingleMessage

namespace RecordViewer

def isValid (v : RecordViewer) : Bool :=
  !decide (v.beginTime > v.endTime)

/-- The comparison of `Init`. -/
def before (lhs rhs : RecordReader) : Bool :=
  if lhs.header.beginTime = rhs.header.beginTime then decide (lhs.header.endTime < rhs.header.endTime)
  else decide (lhs.header.beginTime < rhs.header.beginTime)

def minBeginTime (readers : List RecordReader) : Nat :=
  readers.foldl
    (fun time r => if r.isValid then (if time > r.header.beginTime then r.header.beginTime else time) else time)
    (2 ^ 64 - 1)

def maxEndTime (readers : List RecordReader) : Nat :=
  readers.foldl
    (fun time r => if r.isValid then (if time < r.header.endTime then r.header.endTime else time) else time) 0

/-- `UpdateTime` -/
def updateTime (v : RecordViewer) : RecordViewer :=
  let minTime := minBeginTime (v.readers.map Prod.fst)
  let maxTime := maxEndTime (v.readers.map Prod.fst)
  let beginTime := if v.beginTime < minTime then minTime else v.beginTime
  { v with
    beginTime := beginTime
    endTime := if v.endTime > maxTime then maxTime else v.endTime
    currBeginTime := beginTime }

/-- The constructor. It leaves readers of the same times in their order. -/
def create (readers : List RecordReader) (beginTime endTime : Nat) (channels : List String) : RecordViewer :=
  let sorted := readers.mergeSort fun lhs rhs => !before rhs lhs
  updateTime ⟨beginTime, endTime, channels, sorted.map fun r => (r, false), 0, []⟩

def reset (v : RecordViewer) : RecordViewer :=
  { v with
    readers := v.readers.map fun item => (item.1.reset, false)
    currBeginTime := v.beginTime
    msgBuffer := [] }

def emplace (message : SingleMessage) : List SingleMessage → List SingleMessage
  | [] => [message]
  | first :: rest => if message.time < first.time then message :: first :: rest else first :: emplace message rest

/-- A round of the loop over the messages that a reader has in a window. -/
def readWindowRound (pb : Protobuf) (beginTime endTime fuel : Nat) (s : RecordReader × List SingleMessage) :
    Option (RecordReader × List SingleMessage ⊕ RecordReader × List SingleMessage) :=
  (s.1.readMessage pb fuel beginTime endTime).map fun
    | (some message, r) => .inl (r, emplace message s.2)
    | (none, r) => .inr (r, s.2)

def readWindow (pb : Protobuf) (beginTime endTime fuel : Nat) (s : RecordReader × List SingleMessage) :
    Option (RecordReader × List SingleMessage) :=
  Loop.run (readWindowRound pb beginTime endTime fuel) fuel s

/-- The readers that are not finished, one after the other. -/
def readReaders (pb : Protobuf) (beginTime endTime fuel : Nat) :
    List (RecordReader × Bool) → List SingleMessage → Option (List (RecordReader × Bool) × List SingleMessage)
  | [], buffer => some ([], buffer)
  | (r, true) :: rest, buffer =>
    (readReaders pb beginTime endTime fuel rest buffer).map fun s => ((r, true) :: s.1, s.2)
  | (r, false) :: rest, buffer =>
    (readWindow pb beginTime endTime fuel (r, buffer)).bind fun (r, buffer) =>
      (readReaders pb beginTime endTime fuel rest buffer).map fun s => ((r, false) :: s.1, s.2)

/-- A reader whose messages are all before the window is finished. -/
def finish (beginTime : Nat) (item : RecordReader × Bool) : RecordReader × Bool :=
  if !item.2 && decide (item.1.header.endTime < beginTime) then (item.1.reset, true) else item

/-- The end of the window that begins at `currBeginTime`. -/
def thisEndTime (v : RecordViewer) : Nat :=
  let endTime := (v.currBeginTime + kStepTimeNanoSec) % 2 ^ 64
  if endTime > v.endTime then v.endTime else endTime

/-- A round of the loop of `FillBuffer`. -/
def fillRound (pb : Protobuf) (fuel : Nat) (v : RecordViewer) : Option (RecordViewer ⊕ Bool × RecordViewer) :=
  if v.currBeginTime ≤ v.endTime ∧ v.msgBuffer.length < kBufferMinSize then
    (readReaders pb v.currBeginTime v.thisEndTime fuel (v.readers.map (finish v.currBeginTime))
      v.msgBuffer).map fun s =>
      .inl { v with readers := s.1, msgBuffer := s.2, currBeginTime := (v.thisEndTime + 1) % 2 ^ 64 }
  else some (.inr (!v.msgBuffer.isEmpty, v))

def fillBuffer (pb : Protobuf) (fuel : Nat) (v : RecordViewer) : Option (Bool × RecordViewer) :=
  Loop.run (fillRound pb fuel) fuel v

/-- The first message of the buffer is taken, if its channel is asked for. -/
def takeFirst (v : RecordViewer) : RecordViewer ⊕ Option SingleMessage × RecordViewer :=
  match v.msgBuffer with
  | [] => .inr (none, v)
  | message :: rest =>
    let v := { v with msgBuffer := rest }
    if v.channels.isEmpty || message.channelName ∈ v.channels then .inr (some message, v) else .inl v

/-- A round of the loop of `Update`. -/
def updateRound (pb : Protobuf) (fuel : Nat) (v : RecordViewer) :
    Option (RecordViewer ⊕ Option SingleMessage × RecordViewer) :=
  if v.msgBuffer.isEmpty then
    (v.fillBuffer pb fuel).map fun
      | (false, v) => .inr (none, v)
      | (true, v) => v.takeFirst
  else some v.takeFirst

/-- `Update`: the next message, if there is one. -/
def update (pb : Protobuf) (fuel : Nat) (v : RecordViewer) : Option (Option SingleMessage × RecordViewer) :=
  Loop.run (updateRound pb fuel) fuel v

/-- A step of an iterator, with the messages it has come to. -/
def iteratorRound (pb : Protobuf) (fuel : Nat) (s : List SingleMessage × RecordViewer) :
    Option (List SingleMessage × RecordViewer ⊕ List SingleMessage × RecordViewer) :=
  (s.2.update pb fuel).map fun
    | (some message, v) => .inl (s.1 ++ [message], v)
    | (none, v) => .inr (s.1, v)

/-- The messages from `begin()` to `end()`. -/
def iterate (pb : Protobuf) (fuel : Nat) (v : RecordViewer) : Option (List SingleMessage × RecordViewer) :=
  if v.reset.isValid then Loop.run (iteratorRound pb fuel) fuel ([], v.reset) else some ([], v.reset)

end RecordViewer

end CyberRT.Record

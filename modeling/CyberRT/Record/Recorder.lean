import CyberRT.Lib.Threads
import CyberRT.Record.Writer

namespace CyberRT.Record
open Concur

namespace Recorder

/-- What the callbacks of a `Recorder` share. The history is that of the messages that were passed to the file writer,
each with the time that its callback had taken. -/
structure Shared where
  clock : Nat
  isStarted : Bool
  isStopping : Bool
  messageTime : Nat
  messageCount : Nat
  writer : RecordWriter
  passed : List (SingleMessage × Nat)

/-- Where a thread stands in `ReaderCallback`. -/
inductive Pc
  | idle
  | startedTest (channelName : String) (message : Option (List UInt8))
  | stoppingTest (channelName : String) (message : Option (List UInt8))
  /-- `Time::Now().ToNanosecond()` -/
  | now (channelName : String) (content : List UInt8)
  /-- The time goes into `message_time_`. -/
  | store (channelName : String) (content : List UInt8) (time : Nat)
  /-- `message_time_` is read as the argument. -/
  | read (channelName : String) (content : List UInt8) (time : Nat)
  | write (channelName : String) (content : List UInt8) (time argument : Nat)
  | written
  | readCount
  | storeCount (count : Nat)
  deriving DecidableEq

/-- The time that a callback in progress has taken. -/
def Pc.taken : Pc → Option Nat
  | store _ _ time | read _ _ time | write _ _ time _ => some time
  | _ => none

/-- The time that a callback is about to store, that it has stored and not read, and that it has read. -/
def Pc.storing : Pc → Option Nat
  | store _ _ time => some time
  | _ => none

def Pc.reading : Pc → Option Nat
  | read _ _ time => some time
  | _ => none

def Pc.writing : Pc → Option Nat
  | write _ _ time _ => some time
  | _ => none

inductive Choice
  /-- A message of a channel comes; it may be a null pointer. -/
  | callback (channelName : String) (message : Option (List UInt8))
  | next
  /-- `WriteMessage` returns false. -/
  | fail
  | tick (time : Nat)
  /-- `Stop` sets its flags, and clears them when it is done. -/
  | stopping
  | stopped
  /-- A call of another function of the writer, or a step of a call. -/
  | writer (e : RecordWriter.Event)
  deriving DecidableEq

variable (pb : Protobuf)

/-- `RecordWriter::WriteMessage` takes the mutex and passes the message on. A file that is closed takes it and writes
nothing. -/
def writeMessage (r : Shared) (message : SingleMessage) (taken : Nat) : Option Shared :=
  if r.writer.isOpened then
    (RecordWriter.step pb r.writer (.writeMessage message)).map fun writer =>
      { r with writer, passed := r.passed ++ [(message, taken)] }
  else some { r with passed := r.passed ++ [(message, taken)] }

/-- The next step of a callback. -/
def next (r : Shared) : Pc → Option (Shared × Pc)
  | .idle => none
  | .startedTest channelName message => some (r, if r.isStarted then .stoppingTest channelName message else .idle)
  | .stoppingTest channelName message =>
    match message with
    | none => some (r, .idle)
    | some content => some (r, if r.isStopping then .idle else .now channelName content)
  | .now channelName content => some (r, .store channelName content r.clock)
  | .store channelName content time => some ({ r with messageTime := time }, .read channelName content time)
  | .read channelName content time => some (r, .write channelName content time r.messageTime)
  | .write channelName content time argument =>
    (writeMessage pb r ⟨channelName, argument, content⟩ time).map fun r => (r, .written)
  | .written => some (r, .readCount)
  | .readCount => some (r, .storeCount r.messageCount)
  | .storeCount count => some ({ r with messageCount := count + 1 }, .idle)

/-- A thread that is in no callback does what is done around the callbacks. -/
def act (r : Shared) (pc : Pc) : Choice → Option (Shared × Pc)
  | .next => next pb r pc
  | .fail => if pc = .written then some (r, .idle) else none
  | .callback channelName message => if pc = .idle then some (r, .startedTest channelName message) else none
  | .tick time => if pc = .idle then some ({ r with clock := r.clock + time }, pc) else none
  | .stopping => if pc = .idle then some ({ r with isStopping := true }, pc) else none
  | .stopped => if pc = .idle then some ({ r with isStarted := false, isStopping := false }, pc) else none
  | .writer (.writeMessage _) => none
  | .writer e =>
    if pc = .idle then (RecordWriter.step pb r.writer e).map fun writer => ({ r with writer }, pc) else none

/-- A recorder that was started, at some time of the clock. -/
def start (header : Header) (clock : Nat) : Shared where
  clock := clock
  isStarted := true
  isStopping := false
  messageTime := 0
  messageCount := 0
  writer := RecordWriter.openFile pb header
  passed := []

/-- The callbacks of any channels on any threads. -/
def machine (τ : Type) [DecidableEq τ] (header : Header) (clock : Nat) : Machine (Config τ Shared Pc) (τ × Choice) :=
  Config.machine (start pb header clock) (fun _ => .idle) (act pb)

/-- No other callback stands between the store of its time and the read of it, unless both times are the same, and no
other callback in progress has taken an earlier time than the one whose message is written. -/
def Unhindered (pc : Pc) (_ : Choice) (other : Pc) : Prop :=
  (∀ time ∈ pc.storing, ∀ stored ∈ other.reading, stored = time) ∧
    ∀ time ∈ pc.writing, ∀ taken ∈ other.taken, time ≤ taken

instance (pc : Pc) (c : Choice) (other : Pc) : Decidable (Unhindered pc c other) :=
  inferInstanceAs (Decidable (_ ∧ _))

end Recorder

end CyberRT.Record

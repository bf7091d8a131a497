import CyberRT.Lib.Machine
import Mathlib.Data.List.Sort

namespace CyberRT.Record
open Concur

/-- A message with the writer of its channel and its times. -/
structure PlayTask where
  msg : List UInt8
  writer : Option String
  msgRealTimeNs : Nat
  msgPlayTimeNs : Nat
  deriving DecidableEq

/-- The tasks of a `PlayTaskBuffer`, a multimap: they are in the order of their play times, and a task comes behind those
of the same time. -/
structure PlayTaskBuffer where
  tasks : List PlayTask

namespace PlayTaskBuffer

def size (b : PlayTaskBuffer) : Nat :=
  b.tasks.length

def empty (b : PlayTaskBuffer) : Bool :=
  b.tasks.isEmpty

/-- `Push`, which ignores a null pointer. -/
def push (b : PlayTaskBuffer) : Option PlayTask → PlayTaskBuffer
  | none => b
  | some task => ⟨b.tasks.orderedInsert (fun x y => x.msgPlayTimeNs < y.msgPlayTimeNs) task⟩

def front (b : PlayTaskBuffer) : Option PlayTask :=
  b.tasks.head?

def popFront (b : PlayTaskBuffer) : PlayTaskBuffer :=
  ⟨b.tasks.tail⟩

end PlayTaskBuffer

/-- Where the thread of the consumer stands. -/
inductive ConsumerPc
  /-- There is no thread. -/
  | idle
  /-- `while (!is_stopped_.load())` -/
  | test
  | front
  /-- The loop that sleeps until the time of the first task. -/
  | firstSleep (task : PlayTask)
  /-- The sleep until the time of the task, and `Play`. -/
  | ready (task : PlayTask)
  | played (task : PlayTask)
  /-- `while (is_paused_.load() && !is_stopped_.load())`, with `is_playonce_` in its body. -/
  | pauseTest (task : PlayTask)
  | pauseStopTest (task : PlayTask)
  | pauseOnceTest (task : PlayTask)
  | popFront (task : PlayTask)
  deriving DecidableEq

/-- A `PlayTaskConsumer` and its buffer, with the tasks so far: those that were pushed, those whose `Play` was called
and those that were popped. -/
structure Player where
  buffer : PlayTaskBuffer
  isStopped : Bool
  isPaused : Bool
  isPlayonce : Bool
  beginTimeNs : Nat
  baseMsgPlayTimeNs : Nat
  baseMsgRealTimeNs : Nat
  lastPlayedMsgRealTimeNs : Nat
  playedMsgNum : Nat
  pc : ConsumerPc
  pushed : List PlayTask
  played : List PlayTask
  popped : List PlayTask

namespace Player

def create : Player where
  buffer := ⟨[]⟩
  isStopped := true
  isPaused := false
  isPlayonce := false
  beginTimeNs := 0
  baseMsgPlayTimeNs := 0
  baseMsgRealTimeNs := 0
  lastPlayedMsgRealTimeNs := 0
  playedMsgNum := 0
  pc := .idle
  pushed := []
  played := []
  popped := []

/-- `PlayTask::Play`; the writer may fail to write. -/
def play (p : Player) (task : PlayTask) (succeeds : Bool) : Player :=
  { p with
    played := p.played ++ [task]
    playedMsgNum := if task.writer.isSome && succeeds then p.playedMsgNum + 1 else p.playedMsgNum }

/-- A step of `ThreadFunc`. The clock, the play rate and the writer are open: `sleeping` tells whether the sleep before
the first task has another round, and `succeeds` whether the writer writes. -/
def consume (p : Player) (sleeping succeeds : Bool) : Option Player :=
  match p.pc with
  | .idle => none
  | .test => some { p with pc := if p.isStopped then .idle else .front }
  | .front =>
    match p.buffer.front with
    | none => some { p with pc := .test }
    | some task =>
      if p.baseMsgPlayTimeNs = 0 then
        some { p with
          baseMsgPlayTimeNs := task.msgPlayTimeNs
          baseMsgRealTimeNs := task.msgRealTimeNs
          pc := if task.msgPlayTimeNs > p.beginTimeNs then .firstSleep task else .ready task }
      else some { p with pc := .ready task }
  | .firstSleep task =>
    some { p with pc := if p.isStopped then .idle else if sleeping then .firstSleep task else .ready task }
  | .ready task => some { p.play task succeeds with pc := .played task }
  | .played task =>
    some { p with
      isPlayonce := false
      lastPlayedMsgRealTimeNs := task.msgRealTimeNs
      pc := .pauseTest task }
  | .pauseTest task => some { p with pc := if p.isPaused then .pauseStopTest task else .popFront task }
  | .pauseStopTest task => some { p with pc := if p.isStopped then .popFront task else .pauseOnceTest task }
  | .pauseOnceTest task => some { p with pc := if p.isPlayonce then .popFront task else .pauseTest task }
  | .popFront _ =>
    some { p with
      buffer := p.buffer.popFront
      popped := p.popped ++ p.buffer.tasks.take 1
      pc := .test }

inductive Event
  /-- A `Push` of the producer. -/
  | push (task : Option PlayTask)
  | start (beginTimeNs : Nat)
  | stop
  | pause
  | playOnce
  | continue
  /-- A step of the thread of the consumer. -/
  | consume (sleeping succeeds : Bool)
  deriving DecidableEq

/-- `Stop` joins the thread, so `Start` after it finds none. -/
def step (p : Player) : Event → Option Player
  | .push task => some { p with buffer := p.buffer.push task, pushed := p.pushed ++ task.toList }
  | .start beginTimeNs =>
    if p.isStopped then
      if p.pc = .idle then some { p with isStopped := false, beginTimeNs := beginTimeNs, pc := .test } else none
    else some p
  | .stop => some { p with isStopped := true }
  | .pause => some { p with isPaused := true }
  | .playOnce => some { p with isPlayonce := true }
  | .continue => some { p with isPaused := false }
  | .consume sleeping succeeds => p.consume sleeping succeeds

def machine : Machine Player Event where
  init := create
  step := step

end Player

end CyberRT.Record

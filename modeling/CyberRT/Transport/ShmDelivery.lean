import CyberRT.Transport.Block

namespace CyberRT
open Concur
universe u

namespace ShmDelivery

/-- A notification, of which the code has the index of a block only. It announces a message, that is a writer and the
number of its message; `locked` counts how often the block had been locked for writing when the message was written. -/
structure ReadableInfo (σ : Type u) where
  blockIndex : Nat
  announces : σ × Nat
  locked : Nat

/-- The next access of `Transmit` to the shared memory. -/
inductive TransmitPc (σ : Type u)
  | idle
  | fetchAddSeq
  | tryLockForWrite (index : Nat)
  | write (index : Nat)
  | releaseFailed (index : Nat)
  | releaseWritten (info : ReadableInfo σ)
  | notify (info : ReadableInfo σ)

/-- A writer, and the number of messages it has sent. -/
structure Writer (σ : Type u) where
  pc : TransmitPc σ
  sent : Nat

/-- The same for a round of `ThreadFunc`. -/
inductive DispatcherPc (σ : Type u)
  | listen
  | load (info : ReadableInfo σ) (tryTimes : Nat)
  | compareExchange (info : ReadableInfo σ) (lockNum : Int) (tryTimes : Nat)
  | read (info : ReadableInfo σ)
  | release (info : ReadableInfo σ)

/-- What was handed to the listeners for a notification: the message that was in the block, if it was a whole one, and
how often the block had been locked for writing. -/
structure Delivery (σ : Type u) where
  info : ReadableInfo σ
  locked : Nat
  message : Option (σ × Nat)

structure State (σ : Type u) where
  blocks : Blocks
  content : Nat → Option (σ × Nat)
  locked : Nat → Nat
  queue : List (ReadableInfo σ)
  writers : σ → Writer σ
  dispatcher : DispatcherPc σ
  delivered : List (Delivery σ)

inductive Event (σ : Type u)
  | transmit (p : σ)
  | lock (p : σ) (spurious : Bool)
  | write (p : σ) (serialized : Bool)
  | release (p : σ)
  | notify (p : σ)
  | listen
  | lockRead (spurious : Bool)
  | read (handed : Bool)
  | releaseRead

namespace State
variable {σ : Type u} [DecidableEq σ]

def setWriter (s : State σ) (p : σ) (w : Writer σ) : State σ :=
  { s with writers := Function.update s.writers p w }

def goto (s : State σ) (p : σ) (pc : TransmitPc σ) : State σ :=
  s.setWriter p { s.writers p with pc := pc }

/-- `Transmit` returns. -/
def returns (s : State σ) (p : σ) : State σ :=
  s.setWriter p ⟨.idle, (s.writers p).sent + 1⟩

/-- One step of `GetNextWritableBlockIndex` and `TryLockForWrite`. -/
def lock (conf : ShmConf) (s : State σ) (p : σ) (spurious : Bool) : Option (State σ) :=
  match (s.writers p).pc with
  | .fetchAddSeq =>
    some ({ s with blocks := s.blocks.fetchAddSeq }.goto p (.tryLockForWrite (s.blocks.seq % conf.blockNum)))
  | .tryLockForWrite index =>
    match s.blocks.compareExchangeWeak index Block.rwLockFree Block.writeExclusive spurious with
    | (true, blocks) =>
      some ({ s with blocks := blocks, locked := Function.update s.locked index (s.locked index + 1) }.goto p
        (.write index))
    | (false, blocks) => some ({ s with blocks := blocks }.goto p .fetchAddSeq)
  | _ => none

/-- The message and its info are written into the block; a serialisation that fails leaves no whole message. -/
def write (s : State σ) (p : σ) (serialized : Bool) : Option (State σ) :=
  match (s.writers p).pc with
  | .write index =>
    if serialized then
      let message := (p, (s.writers p).sent)
      some ({ s with content := Function.update s.content index (some message) }.goto p
        (.releaseWritten ⟨index, message, s.locked index⟩))
    else some ({ s with content := Function.update s.content index none }.goto p (.releaseFailed index))
  | _ => none

def release (conf : ShmConf) (s : State σ) (p : σ) : Option (State σ) :=
  match (s.writers p).pc with
  | .releaseFailed index => some ({ s with blocks := Block.releaseBlock conf s.blocks index 1 }.returns p)
  | .releaseWritten info =>
    some ({ s with blocks := Block.releaseBlock conf s.blocks info.blockIndex 1 }.goto p (.notify info))
  | _ => none

def notify (s : State σ) (p : σ) : Option (State σ) :=
  match (s.writers p).pc with
  | .notify info => some ({ s with queue := s.queue ++ [info] }.returns p)
  | _ => none

/-- `Listen`, and the check of the index. -/
def listen (conf : ShmConf) (s : State σ) : Option (State σ) :=
  match s.dispatcher, s.queue with
  | .listen, info :: queue =>
    some { s with queue := queue, dispatcher := if conf.blockNum ≤ info.blockIndex then .listen else .load info 0 }
  | _, _ => none

/-- One step of `TryLockForRead`. -/
def lockRead (s : State σ) (spurious : Bool) : Option (State σ) :=
  match s.dispatcher with
  | .load info tryTimes =>
    some { s with
      dispatcher := if s.blocks.lockNum info.blockIndex < Block.rwLockFree then .listen
        else .compareExchange info (s.blocks.lockNum info.blockIndex) tryTimes }
  | .compareExchange info lockNum tryTimes =>
    match s.blocks.compareExchangeWeak info.blockIndex lockNum (int32 (lockNum + 1)) spurious with
    | (true, blocks) => some { s with blocks := blocks, dispatcher := .read info }
    | (false, blocks) =>
      some { s with
        blocks := blocks
        dispatcher := if tryTimes + 1 = Block.maxTryLockTimes then .listen else .load info (tryTimes + 1) }
  | _ => none

/-- `OnMessage`; nothing is handed over if the info cannot be read, or at the shutdown. -/
def read (s : State σ) (handed : Bool) : Option (State σ) :=
  match s.dispatcher with
  | .read info =>
    let delivery : Delivery σ := ⟨info, s.locked info.blockIndex, s.content info.blockIndex⟩
    some { s with
      dispatcher := .release info
      delivered := if handed then s.delivered ++ [delivery] else s.delivered }
  | _ => none

def releaseRead (conf : ShmConf) (s : State σ) : Option (State σ) :=
  match s.dispatcher with
  | .release info =>
    some { s with blocks := Block.releaseBlock conf s.blocks info.blockIndex (-1), dispatcher := .listen }
  | _ => none

end State

variable {σ : Type u} [DecidableEq σ]

/-- Any number of writers on a channel, and one dispatcher. -/
def machine (σ : Type u) [DecidableEq σ] (conf : ShmConf) : Machine (State σ) (Event σ) where
  init := ⟨.init, fun _ => none, fun _ => 0, [], fun _ => ⟨.idle, 0⟩, .listen, []⟩
  step s
    | .transmit p =>
      match (s.writers p).pc with
      | .idle => some (s.goto p .fetchAddSeq)
      | _ => none
    | .lock p spurious => s.lock conf p spurious
    | .write p serialized => s.write p serialized
    | .release p => s.release conf p
    | .notify p => s.notify p
    | .listen => s.listen conf
    | .lockRead spurious => s.lockRead spurious
    | .read handed => s.read handed
    | .releaseRead => s.releaseRead conf

end ShmDelivery

end CyberRT

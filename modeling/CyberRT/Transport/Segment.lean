import CyberRT.Lib.Threads
import CyberRT.Transport.ShmConf

namespace CyberRT
open Concur
universe u

/-- An object of shared memory: its `State`, and the locks of its blocks. New memory is zero. -/
structure ShmObject where
  size : Nat
  needRemap : Bool
  seq : Nat
  referenceCount : Nat
  ceilingMsgSize : Nat
  lockNum : Nat → Int

def ShmObject.zero : ShmObject :=
  ⟨0, false, 0, 0, 0, fun _ => 0⟩

/-- The objects of shared memory, and the one that the name of the channel is bound to. An object whose name
is gone lives on in the processes that map it. -/
structure Shm where
  name : Option Nat
  objects : Nat → ShmObject
  fresh : Nat

namespace Shm

def empty : Shm :=
  ⟨none, fun _ => .zero, 0⟩

def set (shm : Shm) (o : Nat) (object : ShmObject) : Shm :=
  { shm with objects := Function.update shm.objects o object }

/-- `shm_open` with `O_CREAT | O_EXCL` of a name that is not bound. -/
def create (shm : Shm) : Shm :=
  { shm.set shm.fresh .zero with name := some shm.fresh, fresh := shm.fresh + 1 }

/-- `shm_unlink`, which may fail. -/
def unlink (shm : Shm) (ok : Bool) : Shm :=
  { shm with name := if ok then none else shm.name }

end Shm

namespace Segment

/-- Who has called `OpenOrCreate` or `OpenOnly`. -/
inductive Caller
  | write (msgSize : Nat)
  | remapToWrite (msgSize : Nat)
  | recreate (msgSize : Nat)
  | read (index : Nat)
  | remapToRead (index : Nat)

/-- The next system call, or access to the shared memory, of `OpenOrCreate`. -/
inductive CreatePc
  | shmOpen
  | ftruncate (o : Nat)
  | mmap (o : Nat)
  | shmUnlink
  | newState (o : Nat)
  | load
  | newBlocks
  | increaseReferenceCounts

/-- The same of `OpenOnly`. -/
inductive OpenPc
  | shmOpen
  | fstat (o : Nat)
  | mmap (o size : Nat)
  | load
  | increaseReferenceCounts

/-- The same of `AcquireBlockToWrite`, until the block that it has returned is released. -/
inductive WritePc
  | needRemap
  | setNeedRemap
  | remove
  | fetchAddSeq
  | tryLockForWrite (index : Nat)
  | acquired (index : Nat)

/-- The same of `AcquireBlockToRead`. -/
inductive ReadPc
  | needRemap
  | tryLockForRead
  | acquired

/-- The same of `Destroy`. -/
inductive DestroyPc
  | decreaseReferenceCounts
  | referenceCounts
  | remove

/-- The operation in progress. -/
inductive Pc
  | idle
  | openOrCreate (caller : Caller) (pc : CreatePc)
  | openOnly (caller : Caller) (pc : OpenPc)
  | write (msgSize : Nat) (pc : WritePc)
  | read (index : Nat) (pc : ReadPc)
  | destroy (pc : DestroyPc)
  | destroyed
  | crashed

end Segment

/-- A `PosixSegment`. The pointers `state_` and `blocks_` go into the object that is mapped; `blockBufs` is the
layout with which `block_buf_addrs_` was filled. -/
structure Segment where
  init : Bool
  conf : ShmConf
  state : Option Nat
  blockBufs : Option ShmConf
  pc : Segment.Pc

namespace Segment

def new : Segment :=
  ⟨false, .new, none, none, .idle⟩

def goto (g : Segment) (pc : Pc) : Segment :=
  { g with pc := pc }

def reset (g : Segment) : Segment :=
  { g with init := false, state := none, blockBufs := none }

/-- `AcquireBlockToWrite` after the remap: the check of the message size, and the result so far. -/
def remapped (g : Segment) (msgSize : Nat) (result : Bool) : Segment :=
  if g.conf.ceilingMsgSize < msgSize then g.goto (.write msgSize .setNeedRemap)
  else if result then g.goto (.write msgSize .fetchAddSeq)
  else g.goto .idle

/-- `AcquireBlockToRead` of an open segment: the check of the index. -/
def checkIndex (g : Segment) (index : Nat) : Segment :=
  if g.conf.blockNum ≤ index then g.goto .idle else g.goto (.read index .needRemap)

/-- `OpenOrCreate` or `OpenOnly` returns to its caller. -/
def opened (g : Segment) : Caller → Bool → Segment
  | .write msgSize, true => g.goto (.write msgSize .needRemap)
  | .remapToWrite msgSize, result => g.remapped msgSize result
  | .recreate msgSize, true => g.goto (.write msgSize .fetchAddSeq)
  | .read index, true => g.checkIndex index
  | .remapToRead index, true => g.goto (.read index .tryLockForRead)
  | .write _, false | .recreate _, false | .read _, false | .remapToRead _, false => g.goto .idle

/-- An access through `state_` or `blocks_`, which crashes if they are null. -/
def access (shm : Shm) (g : Segment) (f : Nat → ShmObject → Shm × Segment) : Shm × Segment :=
  match g.state with
  | none => (shm, g.goto .crashed)
  | some o => f o (shm.objects o)

/-- `IncreaseReferenceCounts`, and the return of `true`. -/
def attach (shm : Shm) (g : Segment) (caller : Caller) : Shm × Segment :=
  access shm g fun o object =>
    (shm.set o { object with referenceCount := object.referenceCount + 1 }, { g with init := true }.opened caller true)

/-- One step of `OpenOrCreate`; `ok` is false if the system call fails. -/
def openOrCreate (shm : Shm) (g : Segment) (caller : Caller) (ok : Bool) : CreatePc → Shm × Segment
  | .shmOpen =>
    if ok then
      match shm.name with
      | some _ => (shm, g.goto (.openOnly caller .shmOpen))
      | none => (shm.create, g.goto (.openOrCreate caller (.ftruncate shm.fresh)))
    else (shm, g.opened caller false)
  | .ftruncate o =>
    if ok then
      (shm.set o { shm.objects o with size := g.conf.managedShmSize }, g.goto (.openOrCreate caller (.mmap o)))
    else (shm, g.opened caller false)
  | .mmap o => (shm, g.goto (.openOrCreate caller (if ok then .newState o else .shmUnlink)))
  | .shmUnlink => (shm.unlink ok, g.opened caller false)
  | .newState o =>
    (shm.set o { shm.objects o with
        needRemap := false, seq := 0, referenceCount := 0, ceilingMsgSize := g.conf.ceilingMsgSize },
      { g with state := some o, pc := .openOrCreate caller .load })
  | .load => access shm g fun _ object =>
    (shm, { g with conf := .update object.ceilingMsgSize, pc := .openOrCreate caller .newBlocks })
  | .newBlocks => access shm g fun o object =>
    (shm.set o { object with lockNum := fun i => if i < g.conf.blockNum then 0 else object.lockNum i },
      { g with blockBufs := some g.conf, pc := .openOrCreate caller .increaseReferenceCounts })
  | .increaseReferenceCounts => attach shm g caller

/-- One step of `OpenOnly`. -/
def openOnly (shm : Shm) (g : Segment) (caller : Caller) (ok : Bool) : OpenPc → Shm × Segment
  | .shmOpen =>
    match shm.name with
    | some o => (shm, if ok then g.goto (.openOnly caller (.fstat o)) else g.opened caller false)
    | none => (shm, g.opened caller false)
  | .fstat o =>
    (shm, if ok then g.goto (.openOnly caller (.mmap o (shm.objects o).size)) else g.opened caller false)
  | .mmap o size =>
    -- To map nothing is an error.
    (shm, if ok ∧ size ≠ 0 then { g with state := some o, pc := .openOnly caller .load } else g.opened caller false)
  | .load => access shm g fun _ object =>
    (shm, { g with
      conf := .update object.ceilingMsgSize
      blockBufs := some (.update object.ceilingMsgSize)
      pc := .openOnly caller .increaseReferenceCounts })
  | .increaseReferenceCounts => attach shm g caller

/-- One step of `AcquireBlockToWrite`, with `Remap` and `Recreate`; `ok` is false if the attempt to lock fails.
Nothing is left to do with the block acquired. -/
def acquireBlockToWrite (shm : Shm) (g : Segment) (msgSize : Nat) (ok : Bool) : WritePc → Option (Shm × Segment)
  | .needRemap => some <| access shm g fun _ object =>
    (shm, if object.needRemap then g.reset.goto (.openOnly (.remapToWrite msgSize) .shmOpen)
      else g.remapped msgSize true)
  | .setNeedRemap => some <| access shm g fun o object =>
    (shm.set o { object with needRemap := true }, g.reset.goto (.write msgSize .remove))
  | .remove =>
    some (shm.unlink ok, { g with conf := .update msgSize, pc := .openOrCreate (.recreate msgSize) .shmOpen })
  | .fetchAddSeq => some <| access shm g fun o object =>
    (shm.set o { object with seq := (object.seq + 1) % 2 ^ 32 },
      g.goto (.write msgSize (.tryLockForWrite (object.seq % g.conf.blockNum))))
  | .tryLockForWrite index => some <| access shm g fun o object =>
    if ok ∧ object.lockNum index = 0 then
      (shm.set o { object with lockNum := Function.update object.lockNum index (-1) },
        g.goto (.write msgSize (.acquired index)))
    else (shm, g.goto (.write msgSize .fetchAddSeq))
  | .acquired _ => none

/-- One step of `AcquireBlockToRead`, with `Remap`; `ok` is false if the attempts to lock run out. -/
def acquireBlockToRead (shm : Shm) (g : Segment) (index : Nat) (ok : Bool) : ReadPc → Option (Shm × Segment)
  | .needRemap => some <| access shm g fun _ object =>
    (shm, if object.needRemap then g.reset.goto (.openOnly (.remapToRead index) .shmOpen)
      else g.goto (.read index .tryLockForRead))
  | .tryLockForRead => some <| access shm g fun o object =>
    if ok ∧ 0 ≤ object.lockNum index then
      (shm.set o { object with lockNum := Function.update object.lockNum index (object.lockNum index + 1) },
        g.goto (.read index .acquired))
    else (shm, g.goto .idle)
  | .acquired => none

/-- One step of `Destroy`. -/
def destroy (shm : Shm) (g : Segment) (ok : Bool) : DestroyPc → Shm × Segment
  | .decreaseReferenceCounts => access shm g fun o object =>
    (shm.set o { object with referenceCount := object.referenceCount - 1 }, g.goto (.destroy .referenceCounts))
  | .referenceCounts => access shm g fun _ object =>
    (shm, g.goto (if object.referenceCount = 0 then .destroy .remove else .destroyed))
  | .remove => (shm.unlink ok, g.goto .destroyed)

def next (shm : Shm) (g : Segment) (ok : Bool) : Option (Shm × Segment) :=
  match g.pc with
  | .openOrCreate caller pc => some (openOrCreate shm g caller ok pc)
  | .openOnly caller pc => some (openOnly shm g caller ok pc)
  | .write msgSize pc => acquireBlockToWrite shm g msgSize ok pc
  | .read index pc => acquireBlockToRead shm g index ok pc
  | .destroy pc => some (destroy shm g ok pc)
  | .idle | .destroyed | .crashed => none

inductive Input
  | acquireBlockToWrite (msgSize : Nat)
  | releaseWrittenBlock
  | acquireBlockToRead (index : Nat)
  | releaseReadBlock
  | destroy
  | next (ok : Bool)

/-- `ReleaseWrittenBlock` and `ReleaseReadBlock`, which differ in what they add to the lock. -/
def release (shm : Shm) (g : Segment) (index : Nat) (diff : Int) : Shm × Segment :=
  if g.conf.blockNum ≤ index then (shm, g.goto .idle)
  else access shm g fun o object =>
    (shm.set o { object with lockNum := Function.update object.lockNum index (object.lockNum index + diff) },
      g.goto .idle)

/-- An operation starts, is released, or takes its next step. -/
def act (shm : Shm) (g : Segment) : Input → Option (Shm × Segment)
  | .acquireBlockToWrite msgSize =>
    match g.pc with
    | .idle =>
      some (shm, g.goto (if g.init then .write msgSize .needRemap else .openOrCreate (.write msgSize) .shmOpen))
    | _ => none
  | .releaseWrittenBlock =>
    match g.pc with
    | .write _ (.acquired index) => some (release shm g index 1)
    | _ => none
  | .acquireBlockToRead index =>
    match g.pc with
    | .idle => some (shm, if g.init then g.checkIndex index else g.goto (.openOnly (.read index) .shmOpen))
    | _ => none
  | .releaseReadBlock =>
    match g.pc with
    | .read index .acquired => some (release shm g index (-1))
    | _ => none
  | .destroy =>
    match g.pc with
    | .idle =>
      some (shm, if g.init then { g with init := false, pc := .destroy .decreaseReferenceCounts }
        else g.goto .destroyed)
    | _ => none
  | .next ok => next shm g ok

/-- Any number of segments of one channel, of this and other processes. -/
def machine (σ : Type u) [DecidableEq σ] : Machine (Config σ Shm Segment) (σ × Input) :=
  Config.machine .empty (fun _ => .new) act

end Segment

end CyberRT

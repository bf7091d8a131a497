import Mathlib.Logic.Function.Basic

namespace CyberRT
universe u

/-- A ring that keeps the newest `capacity - 1` values, at the positions after `head` up to `tail`. A slot
that was never written is null. -/
structure CacheBuffer (T : Type u) where
  head : Nat
  tail : Nat
  capacity : Nat
  buffer : Nat → Option T

namespace CacheBuffer
variable {T : Type u}

def new (size : Nat) : CacheBuffer T :=
  ⟨0, 0, size + 1, fun _ => none⟩

def getIndex (b : CacheBuffer T) (pos : Nat) : Nat :=
  pos % b.capacity

def get (b : CacheBuffer T) (pos : Nat) : Option T :=
  b.buffer (b.getIndex pos)

def getHead (b : CacheBuffer T) : Nat :=
  b.head + 1

def getTail (b : CacheBuffer T) : Nat :=
  b.tail

def Empty (b : CacheBuffer T) : Prop :=
  b.tail = 0

instance (b : CacheBuffer T) : Decidable b.Empty :=
  inferInstanceAs (Decidable (b.tail = 0))

def Full (b : CacheBuffer T) : Prop :=
  b.capacity - 1 = b.tail - b.head

instance (b : CacheBuffer T) : Decidable b.Full :=
  inferInstanceAs (Decidable (b.capacity - 1 = b.tail - b.head))

/-- `Fill` of a buffer that has no fusion callback. -/
def fill (b : CacheBuffer T) (value : T) : CacheBuffer T :=
  if b.Full then
    { b with buffer := Function.update b.buffer (b.getIndex b.head) (some value)
             head := b.head + 1
             tail := b.tail + 1 }
  else
    { b with buffer := Function.update b.buffer (b.getIndex (b.tail + 1)) (some value)
             tail := b.tail + 1 }

/-- `ChannelBuffer::Fetch`: the index that was read and the message there, or `none` if there is nothing to
read, and then the index stays as it is. -/
def fetch (b : CacheBuffer T) (index : Nat) : Option (Nat × Option T) :=
  if b.Empty then none
  else if index = 0 then some (b.getTail, b.get b.getTail)
  else if index = b.getTail + 1 then none
  else if index < b.getHead then some (b.getTail, b.get b.getTail)
  else some (index, b.get index)

def size (b : CacheBuffer T) : Nat :=
  b.tail - b.head

def back (b : CacheBuffer T) : Option T :=
  b.get b.tail

/-- `ChannelBuffer::Latest` -/
def latest (b : CacheBuffer T) : Option (Option T) :=
  if b.Empty then none else some b.back

/-- `ChannelBuffer::FetchMulti`, which appends to `vec`. -/
def fetchMulti (b : CacheBuffer T) (fetchSize : Nat) (vec : List (Option T)) : Bool × List (Option T) :=
  if b.Empty then (false, vec)
  else
    let num := min b.size fetchSize
    (true, vec ++ (List.range num).map fun i => b.get (b.getTail - num + 1 + i))

end CacheBuffer

/-- The visitor of one channel. -/
structure DataVisitor (T : Type u) where
  buffer : CacheBuffer T
  nextMsgIndex : Nat

namespace DataVisitor
variable {T : Type u}

def new (queueSize : Nat) : DataVisitor T :=
  ⟨.new queueSize, 0⟩

/-- The message that was fetched with the visitor after it, or `none` if there is none. -/
def tryFetch (v : DataVisitor T) : Option (Option T × DataVisitor T) :=
  match v.buffer.fetch v.nextMsgIndex with
  | some (index, msg) => some (msg, { v with nextMsgIndex := index + 1 })
  | none => none

/-- The buffer holds a message newer than the last one fetched. -/
def Newer (v : DataVisitor T) : Prop :=
  v.nextMsgIndex - 1 < v.buffer.tail

instance (v : DataVisitor T) : Decidable v.Newer :=
  inferInstanceAs (Decidable (_ < _))

/-- A fetch that fails leaves nothing newer behind. -/
theorem not_newer_of_tryFetch {v : DataVisitor T} (failed : v.tryFetch = none) : ¬ v.Newer := by
  have nothing : v.buffer.fetch v.nextMsgIndex = none := by
    unfold tryFetch at failed
    split at failed
    · cases failed
    · assumption
  unfold CacheBuffer.fetch at nothing
  unfold Newer
  split at nothing
  · rename_i empty
    rw [show v.buffer.tail = 0 from empty]
    omega
  split at nothing
  · cases nothing
  split at nothing
  · rename_i last
    rw [last, CacheBuffer.getTail]
    omega
  split at nothing <;> cases nothing

end DataVisitor

end CyberRT

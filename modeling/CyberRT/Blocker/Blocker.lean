import CyberRT.Lib.Table
import Mathlib.Data.List.Induction

namespace CyberRT
open Concur

/-- The messages that were published and the ones that were observed, both with the newest first. -/
structure Blocker (α : Type) where
  capacity : Nat
  observedMsgQueue : List α
  publishedMsgQueue : List α
  publishedCallbacks : List String

namespace Blocker
variable {α : Type}

def create (capacity : Nat) : Blocker α :=
  ⟨capacity, [], [], []⟩

/-- Messages are popped from the back while there are more than `capacity`. -/
def trim (capacity : Nat) (queue : List α) : List α :=
  if capacity < queue.length then trim capacity queue.dropLast else queue
termination_by queue.length
decreasing_by
  rw [List.length_dropLast]
  omega

theorem trim_eq_take (capacity : Nat) (queue : List α) : trim capacity queue = queue.take capacity := by
  induction queue using List.reverseRecOn with
  | nil =>
    unfold trim
    rw [if_neg (by simp), List.take_nil]
  | append_singleton queue msg ih =>
    unfold trim
    split
    · rename_i more
      have fits : capacity ≤ queue.length := by
        rw [List.length_append, List.length_singleton] at more
        omega
      rw [List.dropLast_concat, ih, List.take_append_of_le_length fits]
    · rename_i few
      rw [List.take_of_length_le (by omega)]

def clearObserved (b : Blocker α) : Blocker α :=
  { b with observedMsgQueue := [] }

def clearPublished (b : Blocker α) : Blocker α :=
  { b with publishedMsgQueue := [] }

def observe (b : Blocker α) : Blocker α :=
  { b with observedMsgQueue := b.publishedMsgQueue }

def isObservedEmpty (b : Blocker α) : Bool :=
  b.observedMsgQueue.isEmpty

def isPublishedEmpty (b : Blocker α) : Bool :=
  b.publishedMsgQueue.isEmpty

def subscribe (b : Blocker α) (callbackId : String) : Bool × Blocker α :=
  if callbackId ∈ b.publishedCallbacks then (false, b)
  else (true, { b with publishedCallbacks := callbackId :: b.publishedCallbacks })

def getLatestObservedPtr (b : Blocker α) : Option α :=
  b.observedMsgQueue.head?

def getOldestObservedPtr (b : Blocker α) : Option α :=
  b.observedMsgQueue.getLast?

/-- An iterator is a position in `observed_msg_queue_`. -/
def observedBegin (_ : Blocker α) : Nat :=
  0

def observedEnd (b : Blocker α) : Nat :=
  b.observedMsgQueue.length

/-- The messages from one iterator to the other. -/
def between (b : Blocker α) (first last : Nat) : List α :=
  (b.observedMsgQueue.take last).drop first

def setCapacity (b : Blocker α) (capacity : Nat) : Blocker α :=
  { b with capacity := capacity, publishedMsgQueue := trim capacity b.publishedMsgQueue }

/-- What `Publish` does before it notifies the callbacks. -/
def enqueue (b : Blocker α) (msg : α) : Blocker α :=
  if b.capacity = 0 then b else { b with publishedMsgQueue := trim b.capacity (msg :: b.publishedMsgQueue) }

end Blocker

/-- A blocker for each channel. It is `none` if its messages are of another type. -/
structure BlockerManager (α : Type) where
  blockers : Table String (Option (Blocker α))

namespace BlockerManager
variable {α : Type}

def getBlocker (m : BlockerManager α) (channelName : String) : Option (Blocker α) :=
  (m.blockers.lookup channelName).join

def getOrCreateBlocker (m : BlockerManager α) (capacity : Nat) (channelName : String) :
    Option (Blocker α) × BlockerManager α :=
  match m.blockers.lookup channelName with
  | some blocker => (blocker, m)
  | none => (some (.create capacity), ⟨m.blockers.insert channelName (some (.create capacity))⟩)

/-- A blocker changes in its place. -/
def change (m : BlockerManager α) (channelName : String) (f : Blocker α → Blocker α) : BlockerManager α :=
  ⟨m.blockers.modify channelName (Option.map f)⟩

/-- The capacity that `BlockerAttr` has by default. -/
def defaultCapacity : Nat := 10

def publish (m : BlockerManager α) (channelName : String) (msg : α) : Bool × BlockerManager α :=
  match m.getOrCreateBlocker defaultCapacity channelName with
  | (none, m) => (false, m)
  | (some _, m) => (true, m.change channelName (·.enqueue msg))

def subscribe (m : BlockerManager α) (channelName : String) (capacity : Nat) (callbackId : String) :
    Bool × BlockerManager α :=
  match m.getOrCreateBlocker capacity channelName with
  | (none, m) => (false, m)
  | (some blocker, m) => ((blocker.subscribe callbackId).1, m.change channelName fun b => (b.subscribe callbackId).2)

theorem getBlocker_change (m : BlockerManager α) (channelName : String) (f : Blocker α → Blocker α) :
    (m.change channelName f).getBlocker channelName = (m.getBlocker channelName).map f := by
  unfold getBlocker change
  rw [Table.lookup_modify, if_pos rfl]
  cases m.blockers.lookup channelName with
  | none => rfl
  | some blocker => rfl

theorem getOrCreateBlocker_of_some {m : BlockerManager α} {channelName : String} {b : Blocker α}
    (found : m.getBlocker channelName = some b) (capacity : Nat) :
    m.getOrCreateBlocker capacity channelName = (some b, m) := by
  have held : m.blockers.lookup channelName = some (some b) := Option.join_eq_some_iff.mp found
  rw [getOrCreateBlocker, held]

end BlockerManager

/-- The reader of the simulation mode. -/
structure IntraReader where
  channelName : String
  nodeName : String
  depth : Nat
  isInit : Bool

namespace IntraReader
variable {α : Type}

def init (r : IntraReader) (m : BlockerManager α) : Bool × IntraReader × BlockerManager α :=
  if r.isInit then (true, r, m)
  else
    let (result, m) := m.subscribe r.channelName r.depth r.nodeName
    (result, { r with isInit := true }, m)

def clearData (r : IntraReader) (m : BlockerManager α) : BlockerManager α :=
  m.change r.channelName fun b => b.clearObserved.clearPublished

def observe (r : IntraReader) (m : BlockerManager α) : BlockerManager α :=
  m.change r.channelName Blocker.observe

def empty (r : IntraReader) (m : BlockerManager α) : Bool :=
  ((m.getBlocker r.channelName).map Blocker.isObservedEmpty).getD true

def enqueue (r : IntraReader) (m : BlockerManager α) (msg : α) : BlockerManager α :=
  (m.publish r.channelName msg).2

def setHistoryDepth (r : IntraReader) (m : BlockerManager α) (depth : Nat) : BlockerManager α :=
  m.change r.channelName (·.setCapacity depth)

def getLatestObserved (r : IntraReader) (m : BlockerManager α) : Option α :=
  (m.getBlocker r.channelName).bind Blocker.getLatestObservedPtr

def getOldestObserved (r : IntraReader) (m : BlockerManager α) : Option α :=
  (m.getBlocker r.channelName).bind Blocker.getOldestObservedPtr

/-- The check that there is a blocker fails if it is `none`. -/
def rangeBegin (r : IntraReader) (m : BlockerManager α) : Option Nat :=
  (m.getBlocker r.channelName).map Blocker.observedBegin

/-- `End` gives the begin of the queue. -/
def rangeEnd (r : IntraReader) (m : BlockerManager α) : Option Nat :=
  (m.getBlocker r.channelName).map Blocker.observedBegin

/-- The messages between `Begin` and `End`. -/
def range (r : IntraReader) (m : BlockerManager α) : Option (List α) := do
  let b ← m.getBlocker r.channelName
  return b.between (← r.rangeBegin m) (← r.rangeEnd m)

end IntraReader

-- The methods of a `Reader` that pass to its own blocker.
namespace Reader
variable {α : Type}

def enqueue (b : Blocker α) (msg : α) : Blocker α :=
  b.enqueue msg

def observe (b : Blocker α) : Blocker α :=
  b.observe

def clearData (b : Blocker α) : Blocker α :=
  b.clearPublished.clearObserved

def setHistoryDepth (b : Blocker α) (depth : Nat) : Blocker α :=
  b.setCapacity depth

def empty (b : Blocker α) : Bool :=
  b.isObservedEmpty

def getLatestObserved (b : Blocker α) : Option α :=
  b.getLatestObservedPtr

def getOldestObserved (b : Blocker α) : Option α :=
  b.getOldestObservedPtr

def rangeBegin (b : Blocker α) : Nat :=
  b.observedBegin

def rangeEnd (b : Blocker α) : Nat :=
  b.observedEnd

def range (b : Blocker α) : List α :=
  b.between (rangeBegin b) (rangeEnd b)

end Reader

end CyberRT

import CyberRT.Lib.Machine
import CyberRT.Transport.IntraDispatcher

namespace CyberRT
open Concur

/-- A listener that was added and not removed. -/
structure Registration (L : Type) where
  messageType : String
  selfId : UInt64
  channelId : UInt64
  oppoId : Option UInt64
  listener : L

/-- What the calls so far ask for: the registered listeners, oldest first, and for each channel the
message type of the first listener that was ever added. -/
structure Registry (L : Type) where
  regs : List (Registration L)
  base : UInt64 → Option String

namespace Registry
variable {L : Type}

def empty : Registry L :=
  ⟨[], fun _ => none⟩

def add (r : Registry L) (x : Registration L) : Registry L where
  regs := r.regs ++ [x]
  base := fun ch => if ch = x.channelId then some ((r.base ch).getD x.messageType) else r.base ch

def remove (r : Registry L) (messageType : String) (selfId channelId : UInt64) (oppoId : Option UInt64) :
    Registry L :=
  { r with regs := r.regs.filter fun x =>
      !decide (x.messageType = messageType ∧ x.selfId = selfId ∧ x.channelId = channelId ∧ x.oppoId = oppoId) }

def apply (r : Registry L) : IntraDispatcher.Call L → Registry L
  | .addListener messageType self listener => r.add ⟨messageType, self.getId, self.getChannelId, none, listener⟩
  | .addListenerOpposite messageType self opposite listener =>
    r.add ⟨messageType, self.getId, self.getChannelId, some opposite.getId, listener⟩
  | .removeListener messageType self => r.remove messageType self.getId self.getChannelId none
  | .removeListenerOpposite messageType self opposite =>
    r.remove messageType self.getId self.getChannelId (some opposite.getId)

/-- The registrations of one message type on a channel, with the same opposite. -/
def of (r : Registry L) (messageType : String) (channelId : UInt64) (oppoId : Option UInt64) : List (Registration L) :=
  r.regs.filter fun x => x.messageType = messageType ∧ x.channelId = channelId ∧ x.oppoId = oppoId

/-- The self id under which the wrapper of a channel and opposite is connected: that of the oldest
listener of the channel's first message type. -/
def owner (r : Registry L) (base : String) (channelId : UInt64) (oppoId : Option UInt64) : Option UInt64 :=
  (r.of base channelId oppoId).head?.map fun x => x.selfId

/-- The registered listeners of a channel that a message of the sender concerns. -/
def concerned (r : Registry L) (channelId sender : UInt64) : List L :=
  (r.regs.filter fun x => x.channelId = channelId ∧ (x.oppoId = none ∨ x.oppoId = some sender)).map fun x => x.listener

/-- A listener of another message type than the channel's first one finds the wrapper it depends on. -/
def FitsAdd (r : Registry L) (messageType : String) (channelId : UInt64) (oppoId : Option UInt64) : Prop :=
  ∀ base, r.base channelId = some base → base = messageType ∨ r.of base channelId oppoId ≠ []

/-- Removing a listener takes no other listener's handler or wrapper away. -/
def FitsRemove (r : Registry L) (messageType : String) (selfId channelId : UInt64) (oppoId : Option UInt64) : Prop :=
  (∀ x ∈ r.of messageType channelId oppoId, x.selfId = selfId) ∧
    ∀ base, r.base channelId = some base → r.owner base channelId oppoId = some selfId →
      ∀ x ∈ r.regs, x.channelId = channelId → x.oppoId = oppoId → x.messageType = messageType

def Fits (r : Registry L) : IntraDispatcher.Call L → Prop
  | .addListener messageType self _ => r.FitsAdd messageType self.getChannelId none
  | .addListenerOpposite messageType self opposite _ => r.FitsAdd messageType self.getChannelId (some opposite.getId)
  | .removeListener messageType self => r.FitsRemove messageType self.getId self.getChannelId none
  | .removeListenerOpposite messageType self opposite =>
    r.FitsRemove messageType self.getId self.getChannelId (some opposite.getId)

theorem mem_of {r : Registry L} {messageType : String} {channelId : UInt64} {oppoId : Option UInt64}
    {x : Registration L} :
    x ∈ r.of messageType channelId oppoId ↔
      x ∈ r.regs ∧ x.messageType = messageType ∧ x.channelId = channelId ∧ x.oppoId = oppoId := by
  simp only [of, List.mem_filter, decide_eq_true_eq]

theorem of_add (r : Registry L) (x : Registration L) (messageType : String) (channelId : UInt64)
    (oppoId : Option UInt64) :
    (r.add x).of messageType channelId oppoId =
      r.of messageType channelId oppoId ++
        if x.messageType = messageType ∧ x.channelId = channelId ∧ x.oppoId = oppoId then [x] else [] := by
  simp only [of, add, List.filter_append, List.filter_cons, List.filter_nil, decide_eq_true_eq]

/-- A removal that fits empties its own place and leaves the others alone. -/
theorem of_remove {r : Registry L} {messageType : String} {selfId channelId : UInt64} {oppoId : Option UInt64}
    (own : ∀ x ∈ r.of messageType channelId oppoId, x.selfId = selfId) (messageType' : String) (channelId' : UInt64)
    (oppoId' : Option UInt64) :
    (r.remove messageType selfId channelId oppoId).of messageType' channelId' oppoId' =
      if messageType' = messageType ∧ channelId' = channelId ∧ oppoId' = oppoId then []
      else r.of messageType' channelId' oppoId' := by
  split
  · rename_i here
    obtain ⟨rfl, rfl, rfl⟩ := here
    refine List.eq_nil_iff_forall_not_mem.mpr fun x member => ?_
    obtain ⟨kept, place⟩ := mem_of.mp member
    obtain ⟨inside, other⟩ := List.mem_filter.mp kept
    have self := own x (mem_of.mpr ⟨inside, place⟩)
    simp [place, self] at other
  · rename_i elsewhere
    unfold of remove
    rw [List.filter_filter]
    refine List.filter_congr fun x _ => ?_
    grind

end Registry

namespace ChannelChain
variable {L : Type}

def handlersAt (c : ChannelChain L) : Option UInt64 → BaseHandlers L
  | none => c.handlers
  | some oppoId => c.oppoHandlers.get oppoId

/-- The handler of a message type on a channel, for one opposite or none. -/
def handlerAt (c : ChannelChain L) (messageType : String) (channelId : UInt64) (oppoId : Option UInt64) :
    Option (ListenerHandler L) :=
  ((c.handlersAt oppoId).get channelId).lookup messageType

def addAt (c : ChannelChain L) (x : Registration L) : ChannelChain L × Bool :=
  match x.oppoId with
  | none => c.addListener x.selfId x.channelId x.messageType x.listener
  | some oppoId => c.addListenerOpposite x.selfId oppoId x.channelId x.messageType x.listener

def removeAt (c : ChannelChain L) (messageType : String) (channelId : UInt64) (oppoId : Option UInt64) :
    ChannelChain L :=
  match oppoId with
  | none => c.removeListener channelId messageType
  | some oppoId => c.removeListenerOpposite oppoId channelId messageType

theorem lookup_setHandler (handlers : BaseHandlers L) (messageType messageType' : String)
    (channelId channelId' : UInt64) (h : ListenerHandler L) :
    ((setHandler channelId messageType h handlers).get channelId').lookup messageType' =
      if messageType' = messageType ∧ channelId' = channelId then some h
      else (handlers.get channelId').lookup messageType' := by
  unfold setHandler
  rw [Table.get_insert_eq]
  by_cases channel : channelId' = channelId
  · rw [if_pos channel, Table.lookup_insert_eq, channel]
    simp
  · simp [channel]

theorem lookup_removeHandler (handlers : BaseHandlers L) (messageType messageType' : String)
    (channelId channelId' : UInt64) :
    ((removeHandler channelId messageType handlers).get channelId').lookup messageType' =
      if messageType' = messageType ∧ channelId' = channelId then none
      else (handlers.get channelId').lookup messageType' := by
  have store : Table.get (removeHandler channelId messageType handlers) channelId' =
      if channelId' = channelId then (handlers.get channelId).erase messageType else handlers.get channelId' := by
    unfold removeHandler
    split
    · rename_i found
      have none : handlers.get channelId = ∅ := Table.get_of_notMem (AList.lookup_eq_none.mp found)
      split
      · rename_i same
        rw [same, none]
        rfl
      · rfl
    · rename_i ofChannel found
      rw [Table.get_store, Table.get_of_lookup found]
  rw [store]
  by_cases channel : channelId' = channelId
  · rw [if_pos channel, Table.lookup_erase_eq, channel]
    simp
  · simp [channel]

theorem handlerAt_addAt (c : ChannelChain L) (x : Registration L) (messageType : String) (channelId : UInt64)
    (oppoId : Option UInt64) :
    (c.addAt x).1.handlerAt messageType channelId oppoId =
      if messageType = x.messageType ∧ channelId = x.channelId ∧ oppoId = x.oppoId then
        some (((c.handlerAt x.messageType x.channelId x.oppoId).getD .empty).connectAt x.oppoId x.selfId x.listener)
      else c.handlerAt messageType channelId oppoId := by
  obtain ⟨type, self, channel, oppo, listener⟩ := x
  have own : ∀ handlers : BaseHandlers L,
      (getHandler channel type handlers).1 = ((handlers.get channel).lookup type).getD .empty := by
    intro handlers
    unfold getHandler
    cases (handlers.get channel).lookup type <;> rfl
  cases oppo with
  | none =>
    cases oppoId with
    | none =>
      simp only [handlerAt, handlersAt, addAt, addListener, lookup_setHandler, own, and_true]
      rfl
    | some oppoId => simp [handlerAt, handlersAt, addAt, addListener]
  | some oppo =>
    cases oppoId with
    | none => simp [handlerAt, handlersAt, addAt, addListenerOpposite]
    | some oppoId =>
      simp only [handlerAt, handlersAt, addAt, addListenerOpposite, Table.get_insert_eq, Option.some.injEq]
      by_cases same : oppoId = oppo
      · simp only [same, if_true, lookup_setHandler, own, and_true]
        rfl
      · simp [same]

theorem created_addAt (c : ChannelChain L) (x : Registration L) :
    (c.addAt x).2 = (c.handlerAt x.messageType x.channelId x.oppoId).isNone := by
  obtain ⟨type, self, channel, oppo, listener⟩ := x
  have fresh : ∀ handlers : BaseHandlers L,
      (getHandler channel type handlers).2 = ((handlers.get channel).lookup type).isNone := by
    intro handlers
    unfold getHandler
    cases (handlers.get channel).lookup type <;> rfl
  cases oppo <;> simp [addAt, addListener, addListenerOpposite, handlerAt, handlersAt, fresh]

theorem removeListenerOpposite_handlers (c : ChannelChain L) (oppoId channelId : UInt64) (messageType : String) :
    (c.removeListenerOpposite oppoId channelId messageType).handlers = c.handlers := by
  unfold removeListenerOpposite
  split
  · rfl
  · dsimp only
    split <;> rfl

theorem removeListenerOpposite_get (c : ChannelChain L) (oppoId channelId oppoId' : UInt64) (messageType : String) :
    (c.removeListenerOpposite oppoId channelId messageType).oppoHandlers.get oppoId' =
      if oppoId' = oppoId then removeHandler channelId messageType (c.oppoHandlers.get oppoId)
      else c.oppoHandlers.get oppoId' := by
  unfold removeListenerOpposite
  split
  · rename_i found
    have none : c.oppoHandlers.get oppoId = ∅ := Table.get_of_notMem (AList.lookup_eq_none.mp found)
    split
    · rename_i same
      rw [same, none]
      rfl
    · rfl
  · rename_i handlers found
    rw [Table.get_of_lookup found, ← Table.get_store]
    dsimp only
    split <;> rfl

theorem handlerAt_removeAt (c : ChannelChain L) (messageType messageType' : String) (channelId channelId' : UInt64)
    (oppoId oppoId' : Option UInt64) :
    (c.removeAt messageType channelId oppoId).handlerAt messageType' channelId' oppoId' =
      if messageType' = messageType ∧ channelId' = channelId ∧ oppoId' = oppoId then none
      else c.handlerAt messageType' channelId' oppoId' := by
  cases oppoId with
  | none =>
    cases oppoId' with
    | none => simp only [handlerAt, handlersAt, removeAt, removeListener, lookup_removeHandler, and_true]
    | some oppoId' => simp [handlerAt, handlersAt, removeAt, removeListener]
  | some oppo =>
    cases oppoId' with
    | none => simp [handlerAt, handlersAt, removeAt, removeListenerOpposite_handlers]
    | some oppo' =>
      simp only [handlerAt, handlersAt, removeAt, removeListenerOpposite_get, Option.some.injEq]
      by_cases same : oppo' = oppo
      · simp only [same, if_true, lookup_removeHandler, and_true]
      · simp [same]

/-- A wrapper runs every handler of its channel and opposite, when all conversions succeed. -/
theorem run_eq {convert : String → String → Bool} (total : ∀ a b, convert a b = true) (c : ChannelChain L)
    (w : ListenerWrapper) (sender : UInt64) :
    c.run convert w sender =
      ((c.handlersAt w.oppoId).get w.channelId).entries.flatMap fun ele => ele.2.run sender := by
  have direct : ∀ handlers : BaseHandlers L, runHandlers convert w.channelId w.messageType handlers sender =
      (handlers.get w.channelId).entries.flatMap fun ele => ele.2.run sender := by
    intro handlers
    unfold runHandlers
    split
    · rename_i found
      rw [Table.get_of_notMem (AList.lookup_eq_none.mp found)]
      rfl
    · rename_i channelHandlers found
      rw [Table.get_of_lookup found]
      simp only [total, if_true, ite_self]
  obtain ⟨self, oppo, channel, type⟩ := w
  cases oppo with
  | none => exact direct _
  | some oppo =>
    unfold run handlersAt
    dsimp only
    split
    · rename_i found
      rw [Table.get_of_notMem (AList.lookup_eq_none.mp found)]
      rfl
    · rename_i handlers found
      rw [direct, Table.get_of_lookup found]

end ChannelChain

namespace IntraDispatcher
variable {L : Type}

def addAt (d : IntraDispatcher L) (x : Registration L) : IntraDispatcher L :=
  connectWrapper { d with chain := (d.chain.addAt x).1 } ⟨x.selfId, x.oppoId, x.channelId, x.messageType⟩
    (d.chain.addAt x).2

def removeAt (d : IntraDispatcher L) (messageType : String) (selfId channelId : UInt64) (oppoId : Option UInt64) :
    IntraDispatcher L :=
  let d := d.disconnectWrapper channelId oppoId selfId
  { d with chain := d.chain.removeAt messageType channelId oppoId }

/-- A handler of the chain serves exactly the given listeners; there is none if there are no listeners. -/
def Serves (oppoId : Option UInt64) (listeners : List L) : Option (ListenerHandler L) → Prop
  | none => listeners = []
  | some h => listeners ≠ [] ∧ ∀ oppoId', (h.signalAt oppoId').call = if oppoId' = oppoId then listeners else []

/-- A channel's handler has the one wrapper of its owner, connected under the owner's id. -/
def Holds (h : ListenerHandler ListenerWrapper) (base : String) (channelId : UInt64) (oppoId : Option UInt64) :
    Option UInt64 → Prop
  | none => (h.signalAt oppoId).slots = [] ∧ ∀ selfId, h.connAt oppoId selfId = none
  | some owner => ∃ n, (h.signalAt oppoId).slots = [⟨n, ⟨owner, oppoId, channelId, base⟩, true⟩] ∧
      ∀ selfId, h.connAt oppoId selfId = if selfId = owner then some ⟨n⟩ else none

structure Refines (d : IntraDispatcher L) (r : Registry L) : Prop where
  running : d.isShutdown = false
  base : ∀ ch, (d.msgListeners.lookup ch).map Prod.fst = r.base ch
  wrapper : ∀ ch base h, d.msgListeners.lookup ch = some (base, h) → ∀ oppo, Holds h base ch oppo (r.owner base ch oppo)
  chain : ∀ type ch oppo, Serves oppo ((r.of type ch oppo).map fun x => x.listener) (d.chain.handlerAt type ch oppo)
  led : ∀ x ∈ r.regs, ∃ base, r.base x.channelId = some base ∧ r.of base x.channelId x.oppoId ≠ []

theorem holds_empty (base : String) (ch : UInt64) (oppo : Option UInt64) : Holds .empty base ch oppo none := by
  cases oppo <;> exact ⟨rfl, fun _ => rfl⟩

theorem Holds.connect {h : ListenerHandler ListenerWrapper} {base : String} {ch self : UInt64} {oppo : Option UInt64}
    (holds : Holds h base ch oppo none) :
    Holds (h.connectAt oppo self ⟨self, oppo, ch, base⟩) base ch oppo (some self) := by
  obtain ⟨none, absent⟩ := holds
  refine ⟨(h.signalAt oppo).next, ?_, fun selfId => ?_⟩
  · rw [ListenerHandler.signalAt_connectAt, if_pos rfl, Signal.connect, none, List.nil_append]
  · rw [ListenerHandler.connAt_connectAt, absent]
    simp only [true_and, Signal.connect]

theorem Holds.disconnect {h : ListenerHandler ListenerWrapper} {base : String} {ch self : UInt64} {oppo : Option UInt64}
    (holds : Holds h base ch oppo (some self)) : Holds (h.disconnectAt oppo self) base ch oppo none := by
  obtain ⟨n, slots, conns⟩ := holds
  have found : h.connAt oppo self = some ⟨n⟩ := by rw [conns, if_pos rfl]
  refine ⟨?_, fun selfId => ?_⟩
  · rw [ListenerHandler.signalAt_disconnectAt found, if_pos rfl]
    simp [Signal.disconnect, slots, Signal.clearDisconnectedSlots]
  · rw [ListenerHandler.connAt_disconnectAt found, conns]
    simp only [true_and]
    split <;> rfl

/-- What a handler holds for one opposite depends on its signal and connections for it only. -/
theorem Holds.congr {h h' : ListenerHandler ListenerWrapper} {base : String} {ch : UInt64} {oppo owner : Option UInt64}
    (holds : Holds h base ch oppo owner) (signal : h'.signalAt oppo = h.signalAt oppo)
    (conns : ∀ selfId, h'.connAt oppo selfId = h.connAt oppo selfId) : Holds h' base ch oppo owner := by
  cases owner with
  | none => simpa only [Holds, signal, conns] using holds
  | some owner => simpa only [Holds, signal, conns] using holds

theorem refines_init : Refines (init : IntraDispatcher L) .empty where
  running := rfl
  base := fun _ => rfl
  wrapper := fun _ _ _ found => by cases found
  chain := fun type ch oppo => by cases oppo <;> rfl
  led := fun _ none => by cases none

/-- A channel on which no listener was ever added has no registration. -/
theorem Refines.of_eq_nil {d : IntraDispatcher L} {r : Registry L} (refines : Refines d r) {ch : UInt64}
    (fresh : r.base ch = none) (type : String) (oppo : Option UInt64) : r.of type ch oppo = [] := by
  refine List.eq_nil_iff_forall_not_mem.mpr fun x member => ?_
  obtain ⟨inside, _, channel, _⟩ := Registry.mem_of.mp member
  obtain ⟨base, known, _⟩ := refines.led x inside
  rw [channel, fresh] at known
  cases known

end IntraDispatcher

end CyberRT

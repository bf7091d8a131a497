import CyberRT.Lib.Machine
import CyberRT.Transport.HybridTransmitter

namespace CyberRT
open Concur

/-- One receiver for each channel of a process and message type, known by its id. -/
abbrev ReceiverMap := Table String UInt64

/-- `ReceiverManager::GetReceiver`; `made` is the id of the receiver that is created if there is none. -/
def ReceiverMap.getReceiver (map : ReceiverMap) (roleAttr : RoleAttributes) (made : UInt64) : UInt64 × ReceiverMap :=
  match map.lookup roleAttr.getChannelName with
  | some id => (id, map)
  | none => (made, map.insert roleAttr.getChannelName made)

/-- `Reader::Init`: the role that a reader announces has the id of its receiver. -/
def ReceiverMap.initReader (map : ReceiverMap) (roleAttr : RoleAttributes) (made : UInt64) :
    RoleAttributes × ReceiverMap :=
  let (id, map) := map.getReceiver roleAttr made
  ({ roleAttr with id := some id }, map)

namespace Writer

/-- A writer's transmitter, and the readers that have joined and not yet left. -/
structure State where
  roleAttr : RoleAttributes
  transmitter : HybridTransmitter
  joined : List RoleAttributes

/-- A change message, with the outcome of creating a publisher if it asks for one. -/
structure Event where
  msg : ChangeMsg
  created : Bool

def onChannelChange (roleAttr : RoleAttributes) (t : HybridTransmitter) (e : Event) : HybridTransmitter :=
  if e.msg.roleType ≠ .reader then t
  else if e.msg.roleAttr.getChannelName ≠ roleAttr.getChannelName then t
  else if e.msg.operateType = .join then t.enable e.msg.roleAttr e.created
  else t.disable e.msg.roleAttr

/-- The readers joined after a message, each as often as it has joined. -/
def joinedAfter (joined : List RoleAttributes) (msg : ChangeMsg) : List RoleAttributes :=
  if msg.roleType ≠ .reader then joined
  else if msg.operateType = .join then joined ++ [msg.roleAttr]
  else joined.erase msg.roleAttr

def machine (roleAttr : RoleAttributes) (mode : CommunicationMode) : Machine State Event where
  init := ⟨roleAttr, .init roleAttr mode, []⟩
  step := fun s e => some
    { s with transmitter := onChannelChange s.roleAttr s.transmitter e, joined := joinedAfter s.joined e.msg }

/-- A reader that leaves shares its id with no joined reader of the same mode, and a publisher that a
reader that joins needs is created. -/
def Allowed (s : State) (e : Event) : Prop :=
  e.msg.roleType = .reader → ∀ m, s.transmitter.mappedMode e.msg.roleAttr = some m →
    if e.msg.operateType = .join then
      m = .intra ∨ m = .shm ∨ s.transmitter.transmitters.get m = true ∨ e.created = true
    else ∀ a ∈ s.joined.erase e.msg.roleAttr, s.transmitter.mappedMode a = some m → a.getId ≠ e.msg.roleAttr.getId

structure Inv (s : State) : Prop where
  own : s.transmitter.attr = s.roleAttr
  receivers : ∀ m id, id ∈ s.transmitter.receivers.get m ↔
    ∃ a ∈ s.joined, s.transmitter.mappedMode a = some m ∧ a.getId = id
  enabled : ∀ m, s.transmitter.transmitters.get m = true ↔ s.transmitter.receivers.get m ≠ ∅

theorem inv_init (roleAttr : RoleAttributes) (mode : CommunicationMode) : Inv (machine roleAttr mode).init where
  own := rfl
  receivers := by
    intro m id
    have none : Table.get (HybridTransmitter.init roleAttr mode).receivers m = ∅ := by
      simp only [HybridTransmitter.init, ← AList.insert_empty, Table.get_insert_eq, Table.get_empty]
      split <;> try split <;> try split
      all_goals rfl
    simp [machine, none]
  enabled := by
    intro m
    simp only [machine, HybridTransmitter.init, ← AList.insert_empty, Table.get_insert_eq, Table.get_empty]
    split
    · simp
    split
    · simp
    split
    · simp
    · exact iff_of_false nofun fun none => none rfl

theorem step_join {s : State} {a : RoleAttributes} {m : OptionalMode} (inv : Inv s)
    (mapped : s.transmitter.mappedMode a = some m) {created : Bool}
    (able : m = .intra ∨ m = .shm ∨ s.transmitter.transmitters.get m = true ∨ created = true) :
    Inv { s with transmitter := s.transmitter.enable a created, joined := s.joined ++ [a] } where
  own := by
    rw [← inv.own]
    exact s.transmitter.enable_attr a created
  receivers := by
    intro m' id
    simp only [HybridTransmitter.enable_receivers mapped, HybridTransmitter.enable_mappedMode, List.mem_append,
      List.mem_singleton, or_and_right, exists_or, exists_eq_left, mapped, Option.some.injEq]
    split
    · rename_i same
      subst same
      rw [Finset.mem_insert, inv.receivers m' id, or_comm]
      simp only [true_and, eq_comm]
    · rename_i other
      rw [inv.receivers m' id]
      simp only [Ne.symm other, false_and, or_false]
  enabled := by
    intro m'
    simp only [HybridTransmitter.enable_receivers mapped, HybridTransmitter.enable_transmitters mapped]
    split
    · exact iff_of_true (HybridTransmitter.enableMode_eq_true able) (Finset.insert_ne_empty _ _)
    · exact inv.enabled m'

theorem step_leave {s : State} {a : RoleAttributes} {m : OptionalMode} (inv : Inv s)
    (mapped : s.transmitter.mappedMode a = some m)
    (alone : ∀ b ∈ s.joined.erase a, s.transmitter.mappedMode b = some m → b.getId ≠ a.getId) :
    Inv { s with transmitter := s.transmitter.disable a, joined := s.joined.erase a } where
  own := by
    rw [← inv.own]
    exact s.transmitter.disable_attr a
  receivers := by
    intro m' id
    simp only [HybridTransmitter.disable_receivers mapped, HybridTransmitter.disable_mappedMode]
    split
    · rename_i same
      subst same
      rw [Finset.mem_erase, inv.receivers m' id]
      constructor
      · rintro ⟨other, b, present, hasMode, rfl⟩
        -- The reader that left has the removed id, so this one is still there.
        refine ⟨b, (List.mem_erase_of_ne ?_).mpr present, hasMode, rfl⟩
        rintro rfl
        exact other rfl
      · rintro ⟨b, present, hasMode, rfl⟩
        exact ⟨alone b present hasMode, b, List.mem_of_mem_erase present, hasMode, rfl⟩
    · rename_i other
      rw [inv.receivers m' id]
      constructor
      · rintro ⟨b, present, hasMode, isId⟩
        refine ⟨b, (List.mem_erase_of_ne ?_).mpr present, hasMode, isId⟩
        rintro rfl
        exact other (Option.some.inj (hasMode.symm.trans mapped))
      · rintro ⟨b, present, hasMode, isId⟩
        exact ⟨b, List.mem_of_mem_erase present, hasMode, isId⟩
  enabled := by
    intro m'
    simp only [HybridTransmitter.disable_receivers mapped, HybridTransmitter.disable_transmitters mapped]
    by_cases same : m' = m
    · subst same
      by_cases empty : (s.transmitter.receivers.get m').erase a.getId = ∅
      · simp [empty]
      · simp only [empty, and_false, if_false, if_true, ne_eq, not_false_eq_true, iff_true]
        refine (inv.enabled m').mpr fun none => empty ?_
        rw [none, Finset.erase_empty]
    · simp only [same, false_and, if_false]
      exact inv.enabled m'

/-- A reader that has no mode changes nothing by joining or leaving. -/
theorem inv_of_unmapped {s : State} {joined : List RoleAttributes} (inv : Inv s)
    (same : ∀ m b, s.transmitter.mappedMode b = some m → (b ∈ joined ↔ b ∈ s.joined)) :
    Inv { s with joined := joined } where
  own := inv.own
  receivers := by
    intro m id
    rw [inv.receivers m id]
    constructor
    · rintro ⟨b, present, hasMode, isId⟩
      exact ⟨b, (same m b hasMode).mpr present, hasMode, isId⟩
    · rintro ⟨b, present, hasMode, isId⟩
      exact ⟨b, (same m b hasMode).mp present, hasMode, isId⟩
  enabled := inv.enabled

theorem mem_joinedAfter_of_ne {joined : List RoleAttributes} {msg : ChangeMsg} {b : RoleAttributes}
    (other : b ≠ msg.roleAttr) : b ∈ joinedAfter joined msg ↔ b ∈ joined := by
  unfold joinedAfter
  split
  · rfl
  split
  · simp [other]
  · exact List.mem_erase_of_ne other

theorem step_inv {roleAttr : RoleAttributes} {mode : CommunicationMode} {s s' : State} {e : Event} (inv : Inv s)
    (allowed : Allowed s e) (step : (machine roleAttr mode).step s e = some s') : Inv s' := by
  cases Option.some.inj step
  by_cases reader : e.msg.roleType = .reader
  · cases mapped : s.transmitter.mappedMode e.msg.roleAttr with
    | none =>
      have untouched : onChannelChange s.roleAttr s.transmitter e = s.transmitter := by
        unfold onChannelChange HybridTransmitter.enable HybridTransmitter.disable
        simp only [mapped, ite_self]
      rw [untouched]
      refine inv_of_unmapped inv fun m b hasMode => mem_joinedAfter_of_ne ?_
      rintro rfl
      rw [mapped] at hasMode
      cases hasMode
    | some m =>
      have channel : e.msg.roleAttr.getChannelName = s.roleAttr.getChannelName := by
        rw [← inv.own]
        exact HybridTransmitter.channel_of_mappedMode mapped
      have allowed := allowed reader m mapped
      simp only [onChannelChange, joinedAfter, reader, channel, ne_eq, not_true_eq_false, if_false]
      by_cases joins : e.msg.operateType = .join
      · rw [if_pos joins] at allowed ⊢
        rw [if_pos joins]
        exact step_join inv mapped allowed
      · rw [if_neg joins] at allowed ⊢
        rw [if_neg joins]
        exact step_leave inv mapped allowed
  · simp only [onChannelChange, joinedAfter, ne_eq, reader, not_false_eq_true, if_true]
    exact inv

theorem inv_of_reach {roleAttr : RoleAttributes} {mode : CommunicationMode} {s : State}
    (reach : (machine roleAttr mode).ReachWhen Allowed s) : Inv s :=
  reach.invariant (inv_init roleAttr mode) fun _ _ _ inv allowed step => step_inv inv allowed step

/-- In a run in which no leaving reader shares its id with another one that is still there, and every
publisher that is needed is created, the transmitter of a mode is enabled while a joined reader has that
mode. -/
theorem enabled_iff_needed {roleAttr : RoleAttributes} {mode : CommunicationMode} {s : State}
    (reach : (machine roleAttr mode).ReachWhen Allowed s) (m : OptionalMode) :
    s.transmitter.transmitters.get m = true ↔ ∃ a ∈ s.joined, s.transmitter.mappedMode a = some m := by
  have inv := inv_of_reach reach
  rw [inv.enabled m, ← Finset.nonempty_iff_ne_empty]
  constructor
  · rintro ⟨id, present⟩
    obtain ⟨a, joined, hasMode, _⟩ := (inv.receivers m id).mp present
    exact ⟨a, joined, hasMode⟩
  · rintro ⟨a, joined, hasMode⟩
    exact ⟨a.getId, (inv.receivers m a.getId).mpr ⟨a, joined, hasMode, rfl⟩⟩

/-- A role on channel `chatter` in process 1. -/
def chatterRole (node : String) (id : UInt64) : RoleAttributes :=
  { RoleAttributes.empty with
      hostIp := some "10.0.0.1"
      processId := some 1
      nodeName := some node
      channelName := some "chatter"
      id := some id }

def readerMsg (operate : OperateType) (reader : RoleAttributes) : Event :=
  ⟨⟨operate, .reader, reader⟩, true⟩

/-- The first of two readers in different processes leaves again. -/
def nearLeaves : List Event :=
  let far := { chatterRole "logger" 6 with processId := some 2 }
  [readerMsg .join (chatterRole "listener" 5), readerMsg .join far, readerMsg .leave (chatterRole "listener" 5)]

theorem nearLeaves_enabled :
    let M := machine (chatterRole "talker" 9) .default
    M.ReachWhen Allowed (M.stateAt nearLeaves 3) ∧
      (M.stateAt nearLeaves 3).transmitter.transmitters.get .shm = true ∧
      (M.stateAt nearLeaves 3).transmitter.transmitters.get .intra ≠ true := by
  intro M
  have meets : M.Meets Allowed M.init nearLeaves := by
    refine ⟨fun _ m mapped => ?_, fun _ m mapped => ?_, fun _ m mapped => ?_, trivial⟩
    · exact (if_pos (show OperateType.join = .join from rfl)).mpr (.inr (.inr (.inr rfl)))
    · exact (if_pos (show OperateType.join = .join from rfl)).mpr (.inr (.inr (.inr rfl)))
    · refine (if_neg (show OperateType.leave ≠ .join from nofun)).mpr fun a present _ => ?_
      obtain rfl := List.mem_singleton.mp present
      decide
  have reach := Machine.stateAt_reachWhen nearLeaves meets rfl
  refine ⟨reach, (enabled_iff_needed reach .shm).mpr ⟨_, .head _, by decide⟩, fun enabled => ?_⟩
  obtain ⟨a, present, hasMode⟩ := (enabled_iff_needed reach .intra).mp enabled
  obtain rfl := List.mem_singleton.mp present
  exact absurd hasMode (by decide)

/-- Two nodes of one process read the channel; `ReceiverManager` gives their readers one receiver. -/
def sharedReceiver : RoleAttributes × RoleAttributes :=
  let (first, map) := ReceiverMap.initReader ∅ (chatterRole "listener" 0) 5
  let (second, _) := map.initReader (chatterRole "logger" 0) 6
  (first, second)

/-- Both readers join, and the first one leaves. -/
def oneLeaves : List Event :=
  [readerMsg .join sharedReceiver.1, readerMsg .join sharedReceiver.2, readerMsg .leave sharedReceiver.1]

/-- The second reader is still there, but the transmitter that serves it is disabled. -/
theorem oneLeaves_disabled :
    let M := machine (chatterRole "talker" 9) .default
    let s := M.stateAt oneLeaves 3
    M.Reach s ∧ sharedReceiver.1 ≠ sharedReceiver.2 ∧ sharedReceiver.1.getId = sharedReceiver.2.getId ∧
      sharedReceiver.2 ∈ s.joined ∧ s.transmitter.mappedMode sharedReceiver.2 = some .intra ∧
      s.transmitter.transmitters.get .intra = false :=
  ⟨Machine.stateAt_reach oneLeaves rfl, by decide, by decide, by decide, by decide, by decide⟩

end Writer

end CyberRT

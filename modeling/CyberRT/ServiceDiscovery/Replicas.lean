import CyberRT.ServiceDiscovery.ChannelIndexes
import Mathlib.Data.List.Count

namespace CyberRT.ChannelManager
open Concur MultiValueWarehouse
variable {κ : Type}

/-- What tells a role from all others: the fields by which a role that leaves is matched. -/
structure RoleKey where
  writer : Bool
  channelId : UInt64
  id : UInt64
  nodeId : UInt64
  processId : Int
  hostName : String
  deriving DecidableEq

def keyOf (writer : Bool) (attr : RoleAttributes) : RoleKey :=
  ⟨writer, attr.getChannelId, attr.getId, attr.getNodeId, attr.getProcessId, attr.getHostName⟩

def keyOfMsg (msg : ChangeMsg) : RoleKey :=
  keyOf (decide (msg.roleType = .writer)) msg.roleAttr

/-- What is registered of a role, as often as it has joined. -/
def registeredAs (m : ChannelManager) (key : RoleKey) : List RoleAttributes :=
  (m.indexes key.writer).byChannel.roles.filter fun r => keyOf key.writer r = key

/-- What the messages of one role leave registered of it. -/
def joinedBy (msgs : List ChangeMsg) : List RoleAttributes :=
  msgs.foldl (fun held msg => if msg.operateType = .join then held ++ [msg.roleAttr] else []) []

theorem joinedBy_append (msgs : List ChangeMsg) (msg : ChangeMsg) :
    joinedBy (msgs ++ [msg]) = if msg.operateType = .join then joinedBy msgs ++ [msg.roleAttr] else [] := by
  rw [joinedBy, List.foldl_append]
  rfl

theorem matchAttr_iff_keyOf {r attr : RoleAttributes} (carries : Carries attr) (writer : Bool) :
    RoleWriter.matchAttr r attr = true ↔ keyOf writer r = keyOf writer attr := by
  simp only [RoleWriter.matchAttr_iff, carries.channelId, carries.id, carries.nodeId, carries.processId, carries.hostName,
    forall_const, keyOf, RoleKey.mk.injEq, true_and]
  constructor
  · rintro ⟨channel, id, node, process, host⟩
    exact ⟨channel.symm, id.symm, node.symm, process.symm, host.symm⟩
  · rintro ⟨channel, id, node, process, host⟩
    exact ⟨channel.symm, id.symm, node.symm, process.symm, host.symm⟩

section
variable {m : ChannelManager} {msg : ChangeMsg}

theorem Indexed.dispose (indexed : m.Indexed) (carries : Carries msg.roleAttr) : (m.dispose msg).Indexed :=
  IndexedBy.dispose_all (fun _ carries => carries.keyed) [msg] indexed fun _ member => List.mem_singleton.mp member ▸ carries

/-- A message adds its role or removes it, and leaves all others. -/
theorem registeredAs_dispose (indexed : m.Indexed) (carries : Carries msg.roleAttr) (key : RoleKey) :
    (m.dispose msg).registeredAs key =
      if keyOfMsg msg = key then
        if msg.operateType = .join then m.registeredAs key ++ [msg.roleAttr] else []
      else m.registeredAs key := by
  unfold dispose registeredAs
  by_cases kind : decide (msg.roleType = .writer) = key.writer
  · have same : keyOfMsg msg = key ↔ keyOf key.writer msg.roleAttr = key := by rw [keyOfMsg, kind]
    by_cases join : msg.operateType = .join
    · rw [if_pos join, indexes_disposeJoin, if_pos kind]
      simp only [Indexes.add, roles_add, List.filter_append, List.filter_singleton, same, if_pos join]
      split
      · rename_i own
        rw [decide_eq_true own, cond_true]
      · rename_i other
        rw [decide_eq_false other, cond_false, List.append_nil]
    · rw [if_neg join, indexes_disposeLeave, if_pos kind, ((indexed key.writer).1.roles_remove carries.keyed).2, List.filter_filter, if_neg join]
      have matches' : ∀ r, RoleWriter.matchAttr r msg.roleAttr = true ↔ keyOf key.writer r = keyOf key.writer msg.roleAttr :=
        fun r => matchAttr_iff_keyOf carries key.writer
      simp only [same]
      split
      · rename_i own
        refine List.filter_eq_nil_iff.mpr fun r _ both => ?_
        simp only [Bool.and_eq_true, decide_eq_true_eq, Bool.not_eq_true'] at both
        rw [(matches' r).mpr (both.1.trans own.symm)] at both
        exact absurd both.2 (by decide)
      · rename_i other
        refine List.filter_congr fun r _ => ?_
        by_cases here : keyOf key.writer r = key
        · have apart : RoleWriter.matchAttr r msg.roleAttr = false := by
            by_contra hit
            exact other (((matches' r).mp (Bool.eq_true_of_not_eq_false hit)).symm.trans here)
          simp only [apart, Bool.not_false, Bool.and_true]
        · simp only [here, decide_false, Bool.false_and]
  · have apart : keyOfMsg msg ≠ key := fun same => kind (congrArg RoleKey.writer same)
    rw [if_neg apart]
    split
    · rw [indexes_disposeJoin, if_neg kind]
    · rw [indexes_disposeLeave, if_neg kind]

/-- When a process leaves, all its roles go. -/
theorem registeredAs_onTopoModuleLeave (indexed : m.Indexed) (started : m.isDiscoveryStarted = true) (hostName : String)
    (processId : Int) (key : RoleKey) :
    (m.onTopoModuleLeave hostName processId).registeredAs key =
      if key.hostName = hostName ∧ key.processId = processId then [] else m.registeredAs key := by
  obtain ⟨-, left, -⟩ := onTopoModuleLeaveNotify_spec indexed started hostName processId
  rw [onTopoModuleLeaveNotify_fst] at left
  unfold registeredAs
  rw [(left key.writer).2, List.filter_filter]
  have ofKey : ∀ r, keyOf key.writer r = key → Of hostName processId r =
      decide (key.hostName = hostName ∧ key.processId = processId) := by
    intro r here
    rw [← here, Bool.eq_iff_iff]
    simp only [Of, keyOf, Bool.and_eq_true, beq_iff_eq]
    exact decide_eq_true_iff.symm
  split
  · rename_i leaves
    refine List.filter_eq_nil_iff.mpr fun r _ both => ?_
    simp only [Bool.and_eq_true, decide_eq_true_eq, Bool.not_eq_true'] at both
    rw [ofKey r both.1, decide_eq_true leaves] at both
    exact absurd both.2 (by decide)
  · rename_i stays
    refine List.filter_congr fun r _ => ?_
    by_cases here : keyOf key.writer r = key
    · simp only [here, decide_true, Bool.true_and, ofKey r here, decide_eq_false stays, Bool.not_false]
    · simp only [here, decide_false, Bool.false_and]

end

namespace Replicas

/-- The channel managers of all processes. `disposed` is what the process of a role has disposed of it, `log` what it has
published of that, `received` how much of the latter a process has received, and `forgot` how much of what it knows came
before the process of the role was last removed. -/
structure State (κ : Type) where
  manager : κ → ChannelManager
  disposed : RoleKey → List ChangeMsg
  log : RoleKey → List ChangeMsg
  received : κ → RoleKey → Nat
  forgot : κ → RoleKey → Nat

/-- Messages of one role arrive in the order in which they were published, those of different roles in any order. A
reader or a writer joins with `needPublish` if its messages have a serializer; what leaves is always published. -/
inductive Event (κ : Type)
  | join (p : κ) (attr : RoleAttributes) (role : RoleType) (needPublish : Bool)
  | leave (p : κ) (attr : RoleAttributes) (role : RoleType)
  | onRemoteChange (q : κ) (key : RoleKey)
  | onTopoModuleLeave (q : κ) (hostName : String) (processId : Int)

/-- The hosts and ids of the processes. -/
structure Setup (κ : Type) where
  hostName : κ → String
  processId : κ → Int

variable [DecidableEq κ] (setup : Setup κ)

/-- The role is one of the process. -/
def Setup.Owns (q : κ) (key : RoleKey) : Prop :=
  key.hostName = setup.hostName q ∧ key.processId = setup.processId q

instance (q : κ) (key : RoleKey) : Decidable (setup.Owns q key) :=
  inferInstanceAs (Decidable (_ ∧ _))

/-- What a process knows of a role: of its own roles what it has disposed, of others what it has received. -/
def State.known (s : State κ) (q : κ) (key : RoleKey) : List ChangeMsg :=
  if setup.Owns q key then s.disposed key else (s.log key).take (s.received q key)

/-- `Dispose`, and `Publish` if it is called. -/
def State.publish (s : State κ) (p : κ) (needPublish : Bool) : Option ChangeMsg → State κ
  | none => s
  | some msg => { s with
    manager := Function.update s.manager p ((s.manager p).dispose msg)
    disposed := Function.update s.disposed (keyOfMsg msg) (s.disposed (keyOfMsg msg) ++ [msg])
    log := if needPublish then Function.update s.log (keyOfMsg msg) (s.log (keyOfMsg msg) ++ [msg]) else s.log }

def step (s : State κ) : Event κ → Option (State κ)
  | .join p attr role needPublish => some (s.publish p needPublish ((s.manager p).localMsg attr role .join))
  | .leave p attr role => some (s.publish p true ((s.manager p).localMsg attr role .leave))
  | .onRemoteChange q key => (s.log key)[s.received q key]?.map fun msg => { s with
    manager := Function.update s.manager q ((s.manager q).onRemoteChange msg)
    received := Function.update s.received q (Function.update (s.received q) key (s.received q key + 1)) }
  | .onTopoModuleLeave q hostName processId => some { s with
    manager := Function.update s.manager q ((s.manager q).onTopoModuleLeave hostName processId)
    forgot := Function.update s.forgot q fun key =>
      if key.hostName = hostName ∧ key.processId = processId then (s.known setup q key).length else s.forgot q key }

/-- All processes have started the discovery. -/
def machine : Machine (State κ) (Event κ) where
  init := ⟨fun p => { ChannelManager.init (setup.hostName p) (setup.processId p) with isDiscoveryStarted := true },
    fun _ => [], fun _ => [], fun _ _ => 0, fun _ _ => 0⟩
  step := step setup

/-- The roles that a process joins and leaves are its own, and have the fields by which roles are matched. -/
def Allowed (s : State κ) : Event κ → Prop
  | .join p attr role _ => ∀ msg, (s.manager p).localMsg attr role .join = some msg →
      Carries msg.roleAttr ∧ setup.Owns p (keyOfMsg msg)
  | .leave p attr role => ∀ msg, (s.manager p).localMsg attr role .leave = some msg →
      Carries msg.roleAttr ∧ setup.Owns p (keyOfMsg msg)
  | .onRemoteChange _ _ | .onTopoModuleLeave _ _ _ => True

/-- What holds of the manager of each process. -/
structure Running (q : κ) (m : ChannelManager) : Prop where
  hostName : m.hostName = setup.hostName q
  processId : m.processId = setup.processId q
  up : m.isShutdown = false
  started : m.isDiscoveryStarted = true
  indexed : m.Indexed

structure Inv (s : State κ) : Prop where
  managers : ∀ q, Running setup q (s.manager q)
  log : ∀ key, ∀ msg ∈ s.log key, keyOfMsg msg = key ∧ Carries msg.roleAttr ∧ check msg.roleAttr = true
  received : ∀ q key, s.received q key ≤ (s.log key).length
  forgot : ∀ q key, s.forgot q key ≤ (s.known setup q key).length
  registered : ∀ q key, (s.manager q).registeredAs key = joinedBy ((s.known setup q key).drop (s.forgot q key))

variable {setup} {s s' : State κ} {e : Event κ}

/-- A message that becomes known after what is forgotten. -/
theorem joinedBy_drop_concat {msgs : List ChangeMsg} {forgot : Nat} (before : forgot ≤ msgs.length) (msg : ChangeMsg) :
    joinedBy ((msgs ++ [msg]).drop forgot) =
      if msg.operateType = .join then joinedBy (msgs.drop forgot) ++ [msg.roleAttr] else [] := by
  rw [List.drop_append_of_le_length before, joinedBy_append]

omit [DecidableEq κ] in
theorem Running.dispose {q : κ} {m : ChannelManager} (running : Running setup q m) {msg : ChangeMsg}
    (carries : Carries msg.roleAttr) : Running setup q (m.dispose msg) := by
  have frame : (m.dispose msg).hostName = m.hostName ∧ (m.dispose msg).processId = m.processId ∧
      (m.dispose msg).isShutdown = m.isShutdown ∧ (m.dispose msg).isDiscoveryStarted = m.isDiscoveryStarted := by
    unfold ChannelManager.dispose disposeJoin disposeLeave
    split <;> split <;> exact ⟨rfl, rfl, rfl, rfl⟩
  obtain ⟨host, process, down, started⟩ := frame
  exact ⟨host.trans running.hostName, process.trans running.processId, down.trans running.up, started.trans running.started,
    running.indexed.dispose carries⟩

omit [DecidableEq κ] in
theorem Running.leaveAll {q : κ} {m : ChannelManager} (running : Running setup q m) (role : RoleType)
    {attrs : List RoleAttributes} (carries : ∀ attr ∈ attrs, Carries attr) :
    Running setup q (ChannelManager.leaveAll role m attrs) := by
  induction attrs generalizing m with
  | nil => exact running
  | cons attr attrs ih =>
    obtain ⟨head, tail⟩ := List.forall_mem_cons.mp carries
    refine ih ?_ tail
    have leaves : Carries (m.convert attr role .leave).roleAttr := by
      rw [convert_carries head]
      exact head
    exact running.dispose leaves

omit [DecidableEq κ] in
theorem Running.onTopoModuleLeave {q : κ} {m : ChannelManager} (running : Running setup q m) (hostName : String)
    (processId : Int) : Running setup q (m.onTopoModuleLeave hostName processId) := by
  have carries : ∀ writer, ∀ attr ∈ ((m.indexes writer).byChannel.searchAttr (ofProcess hostName processId)), Carries attr :=
    fun writer attr member => (running.indexed writer).2 attr (mem_searchAttr.mp member).1
  unfold ChannelManager.onTopoModuleLeave
  simp only [running.started, Bool.not_true, Bool.false_eq_true, if_false]
  exact (running.leaveAll .writer (carries true)).leaveAll .reader (carries false)

theorem localMsg_check {m : ChannelManager} {attr : RoleAttributes} {role : RoleType} {opt : OperateType} {msg : ChangeMsg}
    (made : m.localMsg attr role opt = some msg) : check msg.roleAttr = true := by
  have same : check (m.convert attr role opt).roleAttr = check attr := by
    unfold convert check
    dsimp only
    split <;> split <;> rfl
  unfold localMsg at made
  split at made
  · cases made
  · split at made
    · cases made
    · split at made
      · cases made
      · rename_i checked
        cases made
        rw [same]
        simpa using checked

theorem init_inv : Inv setup (machine setup).init where
  managers q := by
    refine ⟨rfl, rfl, rfl, rfl, fun writer => ?_⟩
    obtain ⟨agree, carry⟩ := indexed_init (setup.hostName q) (setup.processId q) writer
    cases writer <;> exact ⟨agree, carry⟩
  log _ _ member := by cases member
  received _ _ := Nat.zero_le _
  forgot _ _ := Nat.zero_le _
  registered q key := by
    have none : ((machine setup).init.manager q).registeredAs key = [] := by
      obtain ⟨writer, _⟩ := key
      cases writer <;> rfl
    have nothing : (machine setup).init.known setup q key = [] := by
      unfold State.known machine
      simp only [List.take_nil, ite_self]
    rw [none, nothing]
    rfl

/-- Only the process itself knows more at once. -/
theorem known_publish (apart : Function.Injective fun p => (setup.hostName p, setup.processId p))
    (received : ∀ q key, s.received q key ≤ (s.log key).length) {p : κ} {msg : ChangeMsg}
    (own : setup.Owns p (keyOfMsg msg)) (needPublish : Bool) (q : κ) (key : RoleKey) :
    (s.publish p needPublish (some msg)).known setup q key =
      if q = p ∧ key = keyOfMsg msg then s.known setup q key ++ [msg] else s.known setup q key := by
  have only : ∀ q, setup.Owns q (keyOfMsg msg) → q = p := fun q owns =>
    apart (Prod.ext (owns.1.symm.trans own.1) (owns.2.symm.trans own.2))
  have published : ∀ key, (s.publish p needPublish (some msg)).log key =
      if needPublish = true ∧ key = keyOfMsg msg then s.log key ++ [msg] else s.log key := by
    intro key
    cases needPublish with
    | false => rfl
    | true =>
      by_cases same : key = keyOfMsg msg
      · subst same
        simp only [State.publish, if_true, Function.update_self, and_self]
      · simp only [State.publish, if_true, Function.update_of_ne same, same, and_false, if_false]
  unfold State.known
  by_cases owns : setup.Owns q key
  · rw [if_pos owns, if_pos owns]
    by_cases same : key = keyOfMsg msg
    · subst same
      rw [if_pos ⟨only q owns, rfl⟩]
      exact Function.update_self ..
    · rw [if_neg fun both => same both.2]
      exact Function.update_of_ne same ..
  · have other : ¬ (q = p ∧ key = keyOfMsg msg) := by
      rintro ⟨rfl, rfl⟩
      exact owns own
    rw [if_neg owns, if_neg owns, if_neg other, published]
    split
    · exact List.take_append_of_le_length (received q key)
    · rfl

theorem Inv.publish (apart : Function.Injective fun p => (setup.hostName p, setup.processId p)) (inv : Inv setup s)
    {p : κ} {msg : ChangeMsg} (carries : Carries msg.roleAttr) (checked : check msg.roleAttr = true)
    (own : setup.Owns p (keyOfMsg msg)) (needPublish : Bool) : Inv setup (s.publish p needPublish (some msg)) := by
  have known := known_publish apart inv.received own needPublish
  refine ⟨?_, ?_, fun q key => ?_, fun q key => ?_, fun q key => ?_⟩
  · exact (Function.forall_update_iff s.manager (Running setup)).mpr
      ⟨(inv.managers p).dispose carries, fun q _ => inv.managers q⟩
  · cases needPublish with
    | false => exact inv.log
    | true =>
      refine (Function.forall_update_iff s.log fun key msgs =>
        ∀ msg ∈ msgs, keyOfMsg msg = key ∧ Carries msg.roleAttr ∧ check msg.roleAttr = true).mpr
        ⟨fun msg' member => ?_, fun key _ => inv.log key⟩
      rcases List.mem_append.mp member with old | new
      · exact inv.log _ msg' old
      · rw [List.mem_singleton.mp new]
        exact ⟨rfl, carries, checked⟩
  · have grows := inv.received q key
    cases needPublish with
    | false => exact grows
    | true =>
      by_cases same : key = keyOfMsg msg
      · subst same
        simp only [State.publish, if_true, Function.update_self, List.length_append]
        exact Nat.le_add_right_of_le grows
      · simp only [State.publish, if_true, Function.update_of_ne same]
        exact grows
  · have before := inv.forgot q key
    rw [known]
    split
    · rw [List.length_append]
      exact Nat.le_add_right_of_le before
    · exact before
  · have before := inv.registered q key
    rw [known]
    by_cases here : q = p
    · subst here
      simp only [State.publish, Function.update_self, registeredAs_dispose (inv.managers q).indexed carries, before]
      by_cases same : key = keyOfMsg msg
      · subst same
        simp only [and_self, if_true]
        rw [joinedBy_drop_concat (inv.forgot q _)]
      · simp only [same, Ne.symm same, and_false, if_false]
    · simp only [State.publish, Function.update_of_ne here, before, here, false_and, if_false]

omit [DecidableEq κ] in
/-- A process disposes the messages about roles of others, and ignores those about its own. -/
theorem Running.remoteMsg {q : κ} {m : ChannelManager} (running : Running setup q m) {msg : ChangeMsg}
    (checked : check msg.roleAttr = true) :
    m.remoteMsg msg = if setup.Owns q (keyOfMsg msg) then none else some msg := by
  have same : m.isFromSameProcess msg = decide (setup.Owns q (keyOfMsg msg)) := by
    rw [Bool.eq_iff_iff]
    simp only [isFromSameProcess, running.hostName, running.processId, Bool.or_eq_true, bne_iff_ne, ne_eq,
      Setup.Owns, keyOfMsg, keyOf, Bool.if_false_left, Bool.and_true, Bool.not_eq_true', decide_eq_false_iff_not, not_or,
      Decidable.not_not]
    exact and_comm.trans decide_eq_true_iff.symm
  simp only [ChannelManager.remoteMsg, running.up, same, checked, Bool.false_eq_true, if_false, Bool.not_true,
    decide_eq_true_eq]

theorem received_update (s : State κ) (q : κ) (key : RoleKey) (q' : κ) (key' : RoleKey) :
    Function.update s.received q (Function.update (s.received q) key (s.received q key + 1)) q' key' =
      if q' = q ∧ key' = key then s.received q key + 1 else s.received q' key' := by
  by_cases here : q' = q
  · subst here
    by_cases same : key' = key
    · subst same
      simp only [Function.update_self, and_self, if_true]
    · simp only [Function.update_self, Function.update_of_ne same, same, and_false, if_false]
  · simp only [Function.update_of_ne here, here, false_and, if_false]

/-- What a process receives of its own roles it has known before. -/
theorem known_receive {q : κ} {key : RoleKey} {msg : ChangeMsg} (next : (s.log key)[s.received q key]? = some msg)
    (manager : κ → ChannelManager) (q' : κ) (key' : RoleKey) :
    State.known setup { s with
        manager := manager
        received := Function.update s.received q (Function.update (s.received q) key (s.received q key + 1)) } q' key' =
      if (q' = q ∧ key' = key) ∧ ¬ setup.Owns q' key' then s.known setup q' key' ++ [msg]
      else s.known setup q' key' := by
  have one : (s.log key).take (s.received q key + 1) = (s.log key).take (s.received q key) ++ [msg] := by
    obtain ⟨bound, rfl⟩ := List.getElem?_eq_some_iff.mp next
    exact List.take_succ_eq_append_getElem bound
  simp only [State.known, received_update]
  by_cases owns : setup.Owns q' key'
  · simp only [owns, if_true, not_true_eq_false, and_false, if_false]
  · simp only [owns, if_false, not_false_eq_true, and_true]
    split
    · rename_i same
      rw [same.1, same.2, one]
    · rfl

theorem Inv.onRemoteChange (inv : Inv setup s) {q : κ} {key : RoleKey}
    (enabled : step setup s (.onRemoteChange q key) = some s') : Inv setup s' := by
  obtain ⟨msg, next, rfl⟩ := Option.map_eq_some_iff.mp enabled
  obtain ⟨named, carries, checked⟩ := inv.log key msg (List.mem_of_getElem? next)
  have bound := (List.getElem?_eq_some_iff.mp next).1
  have effect : (s.manager q).onRemoteChange msg =
      if setup.Owns q key then s.manager q else (s.manager q).dispose msg := by
    rw [ChannelManager.onRemoteChange, (inv.managers q).remoteMsg checked, named]
    split <;> rfl
  have known := @known_receive κ _ setup s q key msg next
  refine ⟨?_, inv.log, fun q' key' => ?_, fun q' key' => ?_, fun q' key' => ?_⟩
  · refine (Function.forall_update_iff s.manager (Running setup)).mpr ⟨?_, fun q _ => inv.managers q⟩
    rw [effect]
    split
    · exact inv.managers q
    · exact (inv.managers q).dispose carries
  · dsimp only
    rw [received_update]
    split
    · rename_i same
      rw [same.2]
      exact bound
    · exact inv.received q' key'
  · have before := inv.forgot q' key'
    rw [known]
    split
    · rw [List.length_append]
      exact Nat.le_add_right_of_le before
    · exact before
  · have before := inv.registered q' key'
    rw [known]
    dsimp only
    by_cases here : q' = q
    · subst here
      rw [Function.update_self, effect]
      by_cases owns : setup.Owns q' key
      · rw [if_pos owns, if_neg fun new => new.2 (new.1.2 ▸ owns)]
        exact before
      · rw [if_neg owns, registeredAs_dispose (inv.managers q').indexed carries, before, named]
        by_cases same : key' = key
        · subst same
          have new : (q' = q' ∧ key' = key') ∧ ¬ setup.Owns q' key' := ⟨⟨rfl, rfl⟩, owns⟩
          rw [if_pos rfl, if_pos new, joinedBy_drop_concat (inv.forgot q' key')]
        · rw [if_neg (Ne.symm same), if_neg fun new => same new.1.2]
    · rw [if_neg fun new => here new.1.1, Function.update_of_ne here]
      exact before

theorem Inv.onTopoModuleLeave (inv : Inv setup s) (q : κ) (hostName : String) (processId : Int)
    (enabled : step setup s (.onTopoModuleLeave q hostName processId) = some s') : Inv setup s' := by
  cases enabled
  refine ⟨?_, inv.log, inv.received, fun q' key => ?_, fun q' key => ?_⟩
  · exact (Function.forall_update_iff s.manager (Running setup)).mpr
      ⟨(inv.managers q).onTopoModuleLeave hostName processId, fun q _ => inv.managers q⟩
  · have before := inv.forgot q' key
    by_cases here : q' = q
    · subst here
      simp only [Function.update_self]
      split
      · exact Nat.le_refl _
      · exact before
    · simp only [Function.update_of_ne here]
      exact before
  · have before := inv.registered q' key
    by_cases here : q' = q
    · subst here
      simp only [Function.update_self,
        registeredAs_onTopoModuleLeave (inv.managers q').indexed (inv.managers q').started hostName processId key]
      split
      · change [] = joinedBy ((s.known setup q' key).drop (s.known setup q' key).length)
        rw [List.drop_length]
        rfl
      · exact before
    · simp only [Function.update_of_ne here]
      exact before

theorem step_inv (apart : Function.Injective fun p => (setup.hostName p, setup.processId p)) (inv : Inv setup s)
    (allowed : Allowed setup s e) (enabled : step setup s e = some s') : Inv setup s' := by
  cases e with
  | join p attr role | leave p attr role =>
    cases enabled
    cases made : (s.manager p).localMsg attr role _ with
    | none => exact inv
    | some msg =>
      obtain ⟨carries, own⟩ := allowed msg made
      exact inv.publish apart carries (localMsg_check made) own _
  | onRemoteChange q key => exact inv.onRemoteChange enabled
  | onTopoModuleLeave q hostName processId => exact inv.onTopoModuleLeave q hostName processId enabled

theorem reach_inv (apart : Function.Injective fun p => (setup.hostName p, setup.processId p))
    (reach : (machine setup).ReachWhen (Allowed setup) s) : Inv setup s :=
  reach.invariant init_inv fun _ _ _ inv allowed enabled => step_inv apart inv allowed enabled

/-- What a process has registered of a role is what the role's own messages, as far as the process knows them, leave
registered, whatever came in between from other roles and processes. -/
theorem registered_eq_known (apart : Function.Injective fun p => (setup.hostName p, setup.processId p))
    (reach : (machine setup).ReachWhen (Allowed setup) s) (q : κ) (key : RoleKey) :
    (s.manager q).registeredAs key = joinedBy ((s.known setup q key).drop (s.forgot q key)) :=
  (reach_inv apart reach).registered q key

theorem roles_perm {m m' : ChannelManager} (same : ∀ key, m.registeredAs key = m'.registeredAs key) (writer : Bool) :
    (m.indexes writer).byChannel.roles.Perm (m'.indexes writer).byChannel.roles := by
  refine List.perm_iff_count.mpr fun r => ?_
  have counts : ∀ m : ChannelManager, (m.indexes writer).byChannel.roles.count r =
      (m.registeredAs (keyOf writer r)).count r := by
    intro m
    exact (List.count_filter (by simp only [decide_eq_true_eq]; rfl)).symm
  rw [counts, counts, same]

theorem search_eq_filter {w : MultiValueWarehouse} {key : RoleAttributes → UInt64} (filed : w.Filed key) (id : UInt64) :
    w.search id = w.roles.filter fun r => key r == id := by
  unfold search roles
  rw [List.filter_map]
  congr 1
  refine List.filter_congr fun item member => ?_
  rw [Function.comp_apply, filed item member]

/-- Two processes that have received everything, have published all about their own roles, and have removed the other
processes at the same point of what is known of each role, give the same answers: each search by a node or by a channel
finds the same roles. -/
theorem replicas_converge (apart : Function.Injective fun p => (setup.hostName p, setup.processId p))
    (reach : (machine setup).ReachWhen (Allowed setup) s) {q q' : κ}
    (received : ∀ key, s.received q key = (s.log key).length ∧ s.received q' key = (s.log key).length)
    (published : ∀ key, setup.Owns q key ∨ setup.Owns q' key → s.log key = s.disposed key)
    (forgot : ∀ key, s.forgot q key = s.forgot q' key) (writer : Bool) (id : UInt64) :
    (((s.manager q).indexes writer).byChannel.search id).Perm (((s.manager q').indexes writer).byChannel.search id) ∧
      (((s.manager q).indexes writer).byNode.search id).Perm (((s.manager q').indexes writer).byNode.search id) := by
  have inv := reach_inv apart reach
  have all : ∀ p key, (setup.Owns p key → s.log key = s.disposed key) → s.received p key = (s.log key).length →
      s.known setup p key = s.log key := by
    intro p key published received
    unfold State.known
    split
    · rename_i owns
      exact (published owns).symm
    · rw [received, List.take_length]
  have same : ∀ key, (s.manager q).registeredAs key = (s.manager q').registeredAs key := by
    intro key
    have first := all q key (fun owns => published key (.inl owns)) (received key).1
    have second := all q' key (fun owns => published key (.inr owns)) (received key).2
    rw [inv.registered, inv.registered, first, second, forgot]
  obtain ⟨agree, -⟩ := (inv.managers q).indexed writer
  obtain ⟨agree', -⟩ := (inv.managers q').indexed writer
  have byChannel := roles_perm same writer
  have byNode := (agree.same.trans byChannel).trans agree'.same.symm
  rw [search_eq_filter agree.filedChannel, search_eq_filter agree'.filedChannel, search_eq_filter agree.filedNode,
    search_eq_filter agree'.filedNode]
  exact ⟨byChannel.filter _, byNode.filter _⟩

def twoProcesses : Setup Bool where
  hostName _ := "pc"
  processId q := if q then 2 else 1

theorem twoProcesses_apart : Function.Injective fun p => (twoProcesses.hostName p, twoProcesses.processId p) := by
  intro p p' same
  cases p <;> cases p' <;> first | rfl | exact absurd same (by decide)

/-- A writer of the first process. -/
def writerRole : RoleAttributes :=
  { RoleAttributes.empty with
    hostName := some "pc", processId := some 1, nodeId := some 4, channelName := some "chatter", channelId := some 5,
    id := some 6 }

theorem writerRole_carries : Carries writerRole :=
  ⟨rfl, rfl, rfl, rfl, rfl⟩

/-- Both processes get the message, also the one that has sent it. -/
def joinAndDeliver : List (Event Bool) :=
  [.join false writerRole .writer true, .onRemoteChange true (keyOf true writerRole),
    .onRemoteChange false (keyOf true writerRole)]

theorem joinAndDeliver_reach : (machine twoProcesses).ReachWhen (Allowed twoProcesses)
    ((machine twoProcesses).stateAt joinAndDeliver 3) := by
  refine Machine.stateAt_reachWhen joinAndDeliver ⟨fun msg made => ?_, trivial, trivial, trivial⟩ rfl
  obtain rfl := Option.some.inj made
  exact ⟨writerRole_carries, rfl, rfl⟩

/-- A writer of messages without a serializer is registered where it is, and nowhere else. -/
def joinUnpublished : List (Event Bool) :=
  [.join false writerRole .writer false]

theorem registered_eq_known_joinUnpublished :
    let s := (machine twoProcesses).stateAt joinUnpublished 1
    (s.manager false).registeredAs (keyOf true writerRole) = [writerRole] ∧
      (s.manager true).registeredAs (keyOf true writerRole) = [] := by
  intro s
  have reach : (machine twoProcesses).ReachWhen (Allowed twoProcesses) s := by
    refine Machine.stateAt_reachWhen joinUnpublished ⟨fun msg made => ?_, trivial⟩ rfl
    obtain rfl := Option.some.inj made
    exact ⟨writerRole_carries, rfl, rfl⟩
  exact ⟨registered_eq_known twoProcesses_apart reach false (keyOf true writerRole),
    registered_eq_known twoProcesses_apart reach true (keyOf true writerRole)⟩

theorem replicas_converge_joinAndDeliver :
    let s := (machine twoProcesses).stateAt joinAndDeliver 3
    (((s.manager false).indexes true).byChannel.search 5).Perm (((s.manager true).indexes true).byChannel.search 5) := by
  intro s
  have unknown : ∀ key, key ≠ keyOf true writerRole →
      s.log key = [] ∧ s.disposed key = [] ∧ s.received false key = 0 ∧ s.received true key = 0 := by
    intro key other
    exact ⟨Function.update_of_ne other _ _, Function.update_of_ne other _ _, Function.update_of_ne other _ _,
      Function.update_of_ne other _ _⟩
  have received : ∀ key, s.received false key = (s.log key).length ∧ s.received true key = (s.log key).length := by
    intro key
    by_cases same : key = keyOf true writerRole
    · subst same
      decide
    · obtain ⟨none, -, first, second⟩ := unknown key same
      rw [none, first, second]
      exact ⟨rfl, rfl⟩
  have published : ∀ key, s.log key = s.disposed key := by
    intro key
    by_cases same : key = keyOf true writerRole
    · subst same
      rfl
    · obtain ⟨none, nothing, -⟩ := unknown key same
      rw [none, nothing]
  exact (replicas_converge twoProcesses_apart joinAndDeliver_reach received (fun key _ => published key) (fun _ => rfl)
    true 5).1

end Replicas

end CyberRT.ChannelManager

import CyberRT.ServiceDiscovery.ChannelManager

namespace CyberRT.ChannelManager
open Concur MultiValueWarehouse

/-- `leaveAll`, with the messages that are passed to `Notify`. -/
def leaveAllNotify (role : RoleType) (m : ChannelManager) : List RoleAttributes → ChannelManager × List ChangeMsg
  | [] => (m, [])
  | attr :: attrs =>
    let msg := m.convert attr role .leave
    let result := leaveAllNotify role (m.disposeLeave msg) attrs
    (result.1, msg :: result.2)

/-- `OnTopoModuleLeave`, with the messages that are passed to `Notify`. -/
def onTopoModuleLeaveNotify (m : ChannelManager) (hostName : String) (processId : Int) :
    ChannelManager × List ChangeMsg :=
  if !m.isDiscoveryStarted then (m, [])
  else
    let attr := ofProcess hostName processId
    let writersToRemove := m.channelWriters.searchAttr attr
    let readersToRemove := m.channelReaders.searchAttr attr
    let writers := leaveAllNotify .writer m writersToRemove
    let readers := leaveAllNotify .reader writers.1 readersToRemove
    (readers.1, writers.2 ++ readers.2)

theorem leaveAllNotify_fst (role : RoleType) (m : ChannelManager) (attrs : List RoleAttributes) :
    (leaveAllNotify role m attrs).1 = leaveAll role m attrs := by
  induction attrs generalizing m with
  | nil => rfl
  | cons attr attrs ih => exact ih _

/-- The notifications come on top of what the manager does. -/
theorem onTopoModuleLeaveNotify_fst (m : ChannelManager) (hostName : String) (processId : Int) :
    (m.onTopoModuleLeaveNotify hostName processId).1 = m.onTopoModuleLeave hostName processId := by
  unfold onTopoModuleLeaveNotify onTopoModuleLeave
  split
  · rfl
  · simp only [leaveAllNotify_fst]

/-- The fields by which a role is filed and matched are all there. -/
structure Carries (attr : RoleAttributes) : Prop where
  nodeId : attr.nodeId.isSome
  channelId : attr.channelId.isSome
  id : attr.id.isSome
  hostName : attr.hostName.isSome
  processId : attr.processId.isSome

/-- The ids under which a role is filed are there. -/
structure Keyed (attr : RoleAttributes) : Prop where
  nodeId : attr.nodeId.isSome
  channelId : attr.channelId.isSome

theorem Carries.keyed {attr : RoleAttributes} (carries : Carries attr) : Keyed attr :=
  ⟨carries.nodeId, carries.channelId⟩

/-- A role of the process. -/
def Of (hostName : String) (processId : Int) (r : RoleAttributes) : Bool :=
  r.getHostName == hostName && r.getProcessId == processId

/-- The roles of one kind, under their nodes and under their channels. -/
structure Indexes where
  byNode : MultiValueWarehouse
  byChannel : MultiValueWarehouse

/-- The writers, or else the readers. -/
def indexes (m : ChannelManager) : Bool → Indexes
  | true => ⟨m.nodeWriters, m.channelWriters⟩
  | false => ⟨m.nodeReaders, m.channelReaders⟩

namespace Indexes

/-- Both hold the same roles, each under its own id. -/
structure Agree (x : Indexes) : Prop where
  filedNode : x.byNode.Filed RoleAttributes.getNodeId
  filedChannel : x.byChannel.Filed RoleAttributes.getChannelId
  same : x.byNode.roles.Perm x.byChannel.roles

def add (x : Indexes) (role : RoleAttributes) : Indexes :=
  ⟨x.byNode.add role.getNodeId role, x.byChannel.add role.getChannelId role⟩

def remove (x : Indexes) (role : RoleAttributes) : Indexes :=
  ⟨x.byNode.remove role.getNodeId role, x.byChannel.remove role.getChannelId role⟩

/-- All roles in the index by channel, and so all in the other, carry their fields. -/
def Carry (x : Indexes) : Prop :=
  ∀ r ∈ x.byChannel.roles, Carries r

variable {x : Indexes} {role : RoleAttributes}

theorem Agree.add (agree : x.Agree) (role : RoleAttributes) : (x.add role).Agree where
  filedNode := agree.filedNode.add role
  filedChannel := agree.filedChannel.add role
  same := by
    simp only [Indexes.add, roles_add]
    exact agree.same.append_right _

/-- The roles after one was added are the old ones and this one. -/
theorem roles_of_add {P : RoleAttributes → Prop} (all : ∀ r ∈ x.byChannel.roles, P r) (here : P role) :
    ∀ r ∈ (x.add role).byChannel.roles, P r := by
  intro r member
  simp only [Indexes.add, roles_add] at member
  rcases List.mem_append.mp member with old | new
  · exact all r old
  · exact List.mem_singleton.mp new ▸ here

/-- A removal takes the matching roles out of both indexes, since these have the keys under which it looks. -/
theorem Agree.roles_remove (agree : x.Agree) (keyed : Keyed role) :
    (x.remove role).byNode.roles = x.byNode.roles.filter (fun r => !RoleWriter.matchAttr r role) ∧
    (x.remove role).byChannel.roles = x.byChannel.roles.filter (fun r => !RoleWriter.matchAttr r role) := by
  constructor
  · refine agree.filedNode.roles_remove fun r hit => ?_
    obtain ⟨_, _, node, _⟩ := RoleWriter.matchAttr_iff.mp hit
    exact (node keyed.nodeId).symm
  · refine agree.filedChannel.roles_remove fun r hit => ?_
    obtain ⟨channel, _⟩ := RoleWriter.matchAttr_iff.mp hit
    exact (channel keyed.channelId).symm

theorem Agree.remove (agree : x.Agree) (keyed : Keyed role) : (x.remove role).Agree where
  filedNode := agree.filedNode.remove _ role
  filedChannel := agree.filedChannel.remove _ role
  same := by
    rw [(agree.roles_remove keyed).1, (agree.roles_remove keyed).2]
    exact agree.same.filter _

/-- What a removal leaves was there before. -/
theorem roles_of_remove {P : RoleAttributes → Prop} (all : ∀ r ∈ x.byChannel.roles, P r) :
    ∀ r ∈ (x.remove role).byChannel.roles, P r := by
  intro r member
  obtain ⟨item, inside, rfl⟩ := List.mem_map.mp member
  exact all _ (List.mem_map_of_mem (List.mem_filter.mp inside).1)

end Indexes

section
variable {m : ChannelManager} {msg : ChangeMsg}

theorem indexes_disposeJoin (m : ChannelManager) (msg : ChangeMsg) (writer : Bool) :
    (m.disposeJoin msg).indexes writer =
      if decide (msg.roleType = .writer) = writer then (m.indexes writer).add msg.roleAttr else m.indexes writer := by
  unfold disposeJoin
  by_cases kind : msg.roleType = .writer
  · cases writer <;> simp [kind, indexes, Indexes.add]
  · cases writer <;> simp [kind, indexes, Indexes.add]

theorem indexes_disposeLeave (m : ChannelManager) (msg : ChangeMsg) (writer : Bool) :
    (m.disposeLeave msg).indexes writer =
      if decide (msg.roleType = .writer) = writer then (m.indexes writer).remove msg.roleAttr
      else m.indexes writer := by
  unfold disposeLeave
  by_cases kind : msg.roleType = .writer
  · cases writer <;> simp [kind, indexes, Indexes.remove]
  · cases writer <;> simp [kind, indexes, Indexes.remove]

/-- The indexes agree, and all their roles have a property. -/
def IndexedBy (P : RoleAttributes → Prop) (m : ChannelManager) : Prop :=
  ∀ writer, (m.indexes writer).Agree ∧ ∀ r ∈ (m.indexes writer).byChannel.roles, P r

/-- What every run keeps. -/
def Indexed (m : ChannelManager) : Prop :=
  ∀ writer, (m.indexes writer).Agree ∧ (m.indexes writer).Carry

section
variable {P : RoleAttributes → Prop}

theorem IndexedBy.disposeJoin (indexed : m.IndexedBy P) (here : P msg.roleAttr) : (m.disposeJoin msg).IndexedBy P := by
  intro writer
  obtain ⟨agree, all⟩ := indexed writer
  rw [indexes_disposeJoin]
  split
  · exact ⟨agree.add _, Indexes.roles_of_add all here⟩
  · exact ⟨agree, all⟩

theorem IndexedBy.disposeLeave (indexed : m.IndexedBy P) (keyed : Keyed msg.roleAttr) :
    (m.disposeLeave msg).IndexedBy P := by
  intro writer
  obtain ⟨agree, all⟩ := indexed writer
  rw [indexes_disposeLeave]
  split
  · exact ⟨agree.remove keyed, Indexes.roles_of_remove all⟩
  · exact ⟨agree, all⟩

theorem IndexedBy.dispose_all (keys : ∀ attr, P attr → Keyed attr) (msgs : List ChangeMsg) (indexed : m.IndexedBy P)
    (all : ∀ msg ∈ msgs, P msg.roleAttr) : (msgs.foldl dispose m).IndexedBy P := by
  induction msgs generalizing m with
  | nil => exact indexed
  | cons msg msgs ih =>
    obtain ⟨here, rest⟩ := List.forall_mem_cons.mp all
    refine ih ?_ rest
    unfold dispose
    split
    · exact indexed.disposeJoin here
    · exact indexed.disposeLeave (keys _ here)

end

/-- Nothing is missing that `convert` would fill in. -/
theorem convert_carries {attr : RoleAttributes} (carries : Carries attr) (role : RoleType) (opt : OperateType) :
    m.convert attr role opt = ⟨opt, role, attr⟩ := by
  simp [convert, carries.hostName, carries.processId]

/-- The roles that none of the given ones matches. -/
def unmatched (attrs roles : List RoleAttributes) : List RoleAttributes :=
  roles.filter fun r => !attrs.any fun attr => RoleWriter.matchAttr r attr

theorem unmatched_cons (attr : RoleAttributes) (attrs roles : List RoleAttributes) :
    unmatched (attr :: attrs) roles = unmatched attrs (roles.filter fun r => !RoleWriter.matchAttr r attr) := by
  simp only [unmatched, List.filter_filter, List.any_cons, Bool.not_or, Bool.and_comm]

/-- The roles leave one after the other, each with its notification. -/
theorem leaveAllNotify_spec (role : RoleType) {attrs : List RoleAttributes} (carries : ∀ a ∈ attrs, Carries a)
    (indexed : m.Indexed) :
    (leaveAllNotify role m attrs).2 = attrs.map (fun attr => ⟨.leave, role, attr⟩) ∧
    (leaveAllNotify role m attrs).1.Indexed ∧
    ∀ writer,
      ((leaveAllNotify role m attrs).1.indexes writer).byNode.roles =
        (if decide (role = .writer) = writer then unmatched attrs (m.indexes writer).byNode.roles
          else (m.indexes writer).byNode.roles) ∧
      ((leaveAllNotify role m attrs).1.indexes writer).byChannel.roles =
        (if decide (role = .writer) = writer then unmatched attrs (m.indexes writer).byChannel.roles
          else (m.indexes writer).byChannel.roles) := by
  induction attrs generalizing m with
  | nil => exact ⟨rfl, indexed, fun writer => by simp [leaveAllNotify, unmatched]⟩
  | cons attr attrs ih =>
    obtain ⟨head, tail⟩ := List.forall_mem_cons.mp carries
    simp only [leaveAllNotify, convert_carries head, List.map_cons]
    have first : (m.disposeLeave ⟨.leave, role, attr⟩).Indexed := IndexedBy.disposeLeave indexed head.keyed
    obtain ⟨sent, indexed', left⟩ := ih tail first
    refine ⟨by rw [sent], indexed', fun writer => ?_⟩
    rw [(left writer).1, (left writer).2, indexes_disposeLeave]
    split
    · obtain ⟨node, channel⟩ := (indexed writer).1.roles_remove head.keyed
      rw [node, channel, unmatched_cons, unmatched_cons]
      exact ⟨rfl, rfl⟩
    · exact ⟨rfl, rfl⟩

theorem matchAttr_ofProcess {r : RoleAttributes} {host : String} {pid : Int} :
    RoleWriter.matchAttr r (ofProcess host pid) = Of host pid r := by
  rw [Bool.eq_iff_iff, RoleWriter.matchAttr_iff]
  simp only [ofProcess, RoleAttributes.empty, RoleAttributes.getProcessId, RoleAttributes.getHostName, Of,
    Option.isSome_none, Option.isSome_some, Bool.and_eq_true, beq_iff_eq, Option.getD_some, forall_const,
    Bool.false_eq_true, IsEmpty.forall_iff, true_and]
  exact ⟨fun h => ⟨h.2.symm, h.1.symm⟩, fun h => ⟨h.2.symm, h.1.symm⟩⟩

theorem searchAttr_ofProcess (w : MultiValueWarehouse) (host : String) (pid : Int) :
    w.searchAttr (ofProcess host pid) = w.roles.filter (Of host pid) := by
  simp only [searchAttr, roles, List.filter_map, matchAttr_ofProcess]
  rfl

/-- With the roles of a process go exactly the roles of this process. -/
theorem unmatched_ofProcess {held roles : List RoleAttributes} {host : String} {pid : Int}
    (carries : ∀ r ∈ held, Carries r) (within : ∀ r ∈ roles, r ∈ held) :
    unmatched (held.filter (Of host pid)) roles = roles.filter fun r => !Of host pid r := by
  refine List.filter_congr fun r member => congrArg (!·) ?_
  rw [Bool.eq_iff_iff, List.any_eq_true]
  constructor
  · rintro ⟨attr, chosen, hit⟩
    obtain ⟨here, own⟩ := List.mem_filter.mp chosen
    obtain ⟨_, _, _, process, host'⟩ := RoleWriter.matchAttr_iff.mp hit
    simp only [Of] at own ⊢
    rwa [← process (carries attr here).processId, ← host' (carries attr here).hostName]
  · intro own
    refine ⟨r, List.mem_filter.mpr ⟨within r member, own⟩, RoleWriter.matchAttr_iff.mpr ?_⟩
    exact ⟨fun _ => rfl, fun _ => rfl, fun _ => rfl, fun _ => rfl, fun _ => rfl⟩

/-- The message of a role that leaves. -/
def leaveMsg (role : RoleType) (attr : RoleAttributes) : ChangeMsg :=
  ⟨.leave, role, attr⟩

theorem onTopoModuleLeaveNotify_spec (indexed : m.Indexed) (started : m.isDiscoveryStarted = true) (host : String)
    (pid : Int) :
    (m.onTopoModuleLeaveNotify host pid).1.Indexed ∧
    (∀ writer,
      ((m.onTopoModuleLeaveNotify host pid).1.indexes writer).byNode.roles =
        (m.indexes writer).byNode.roles.filter (fun r => !Of host pid r) ∧
      ((m.onTopoModuleLeaveNotify host pid).1.indexes writer).byChannel.roles =
        (m.indexes writer).byChannel.roles.filter (fun r => !Of host pid r)) ∧
    (m.onTopoModuleLeaveNotify host pid).2 =
      (m.channelWriters.roles.filter (Of host pid)).map (leaveMsg .writer) ++
        (m.channelReaders.roles.filter (Of host pid)).map (leaveMsg .reader) := by
  have carries : ∀ writer, ∀ a ∈ (m.indexes writer).byChannel.roles.filter (Of host pid), Carries a :=
    fun writer a member => (indexed writer).2 a (List.mem_filter.mp member).1
  have gone : ∀ writer,
      unmatched ((m.indexes writer).byChannel.roles.filter (Of host pid)) (m.indexes writer).byNode.roles =
        (m.indexes writer).byNode.roles.filter (fun r => !Of host pid r) ∧
      unmatched ((m.indexes writer).byChannel.roles.filter (Of host pid)) (m.indexes writer).byChannel.roles =
        (m.indexes writer).byChannel.roles.filter (fun r => !Of host pid r) := by
    intro writer
    obtain ⟨agree, carry⟩ := indexed writer
    exact ⟨unmatched_ofProcess carry fun r member => agree.same.mem_iff.mp member,
      unmatched_ofProcess carry fun r member => member⟩
  obtain ⟨sent₁, indexed₁, left₁⟩ := leaveAllNotify_spec .writer (carries true) indexed
  obtain ⟨sent₂, indexed₂, left₂⟩ := leaveAllNotify_spec .reader (carries false) indexed₁
  simp only [onTopoModuleLeaveNotify, started, Bool.not_true, Bool.false_eq_true, if_false, searchAttr_ofProcess]
  refine ⟨indexed₂, fun writer => ?_, ?_⟩
  · cases writer with
    | true =>
      refine ⟨((left₂ true).1.trans ?_).trans (gone true).1, ((left₂ true).2.trans ?_).trans (gone true).2⟩
      · exact (left₁ true).1
      · exact (left₁ true).2
    | false =>
      refine ⟨((left₂ false).1.trans ?_).trans (gone false).1, ((left₂ false).2.trans ?_).trans (gone false).2⟩
      · exact congrArg (unmatched _) (left₁ false).1
      · exact congrArg (unmatched _) (left₁ false).2
  · exact congrArg₂ (· ++ ·) sent₁ sent₂

end

/-- The messages that an event makes the manager dispose. -/
def disposedBy (m : ChannelManager) : Event → List ChangeMsg
  | .join attr role => (m.localMsg attr role .join).toList
  | .leave attr role => (m.localMsg attr role .leave).toList
  | .onRemoteChange msg => (m.remoteMsg msg).toList
  | .onTopoModuleLeave host pid =>
    if !m.isDiscoveryStarted then []
    else
      ((m.channelWriters.searchAttr (ofProcess host pid)).map fun attr => m.convert attr .writer .leave) ++
        (m.channelReaders.searchAttr (ofProcess host pid)).map fun attr => m.convert attr .reader .leave
  | _ => []

/-- The messages for a process that left are made of its roles. -/
theorem mem_disposedBy_topo {m : ChannelManager} {host : String} {pid : Int} {msg : ChangeMsg}
    (member : msg ∈ m.disposedBy (.onTopoModuleLeave host pid)) :
    ∃ attr writer role, attr ∈ (m.indexes writer).byChannel.roles ∧ msg = m.convert attr role .leave := by
  simp only [disposedBy] at member
  split at member
  · cases member
  · rcases List.mem_append.mp member with first | second
    · obtain ⟨attr, found, rfl⟩ := List.mem_map.mp first
      exact ⟨attr, true, .writer, (mem_searchAttr.mp found).1, rfl⟩
    · obtain ⟨attr, found, rfl⟩ := List.mem_map.mp second
      exact ⟨attr, false, .reader, (mem_searchAttr.mp found).1, rfl⟩

theorem convert_disposeLeave (m : ChannelManager) (msg : ChangeMsg) : (m.disposeLeave msg).convert = m.convert := by
  have frame : (m.disposeLeave msg).hostName = m.hostName ∧ (m.disposeLeave msg).processId = m.processId := by
    unfold disposeLeave
    split <;> exact ⟨rfl, rfl⟩
  funext attr role opt
  simp only [convert, frame.1, frame.2]

theorem leaveAll_eq_foldl (role : RoleType) (m : ChannelManager) (attrs : List RoleAttributes) :
    leaveAll role m attrs = (attrs.map fun attr => m.convert attr role .leave).foldl dispose m ∧
      (leaveAll role m attrs).convert = m.convert := by
  induction attrs generalizing m with
  | nil => exact ⟨rfl, rfl⟩
  | cons attr attrs ih =>
    obtain ⟨rest, same⟩ := ih (m.disposeLeave (m.convert attr role .leave))
    rw [convert_disposeLeave] at rest same
    exact ⟨rest, same⟩

theorem disposeIfAny_eq_foldl (m : ChannelManager) (msg? : Option ChangeMsg) :
    m.disposeIfAny msg? = msg?.toList.foldl dispose m := by
  cases msg? <;> rfl

/-- An event changes the warehouses by the messages that it makes the manager dispose. -/
theorem indexes_step {hash : String → UInt64} {s s' : State} {e : Event} (step : step hash s e = some s')
    (writer : Bool) :
    s'.manager.indexes writer = ((s.manager.disposedBy e).foldl dispose s.manager).indexes writer := by
  cases e with
  | startDiscovery created =>
    cases Option.some.inj step
    unfold startDiscovery
    split <;> cases writer <;> rfl
  | shutdown =>
    cases Option.some.inj step
    unfold shutdown
    split <;> cases writer <;> rfl
  | stopDiscovery | getFlowDirection lhs rhs =>
    cases Option.some.inj step
    cases writer <;> rfl
  | join attr role | leave attr role | onRemoteChange msg =>
    cases Option.some.inj step
    exact congrArg (fun m => m.indexes writer) (disposeIfAny_eq_foldl _ _)
  | onTopoModuleLeave host pid =>
    cases Option.some.inj step
    unfold onTopoModuleLeave disposedBy
    split
    · rfl
    · obtain ⟨writers, same⟩ :=
        leaveAll_eq_foldl .writer s.manager (s.manager.channelWriters.searchAttr (ofProcess host pid))
      rw [List.foldl_append, ← writers]
      dsimp only
      rw [(leaveAll_eq_foldl .reader _ _).1, same]
  | registerNode name | registerChannel name | getUpstreamOfNode name | getDownstreamOfNode name =>
    obtain ⟨r, -, rfl⟩ := Option.map_eq_some_iff.mp step
    rfl

theorem IndexedBy.step {P : RoleAttributes → Prop} {hash : String → UInt64} {s s' : State} {e : Event}
    (keys : ∀ attr, P attr → Keyed attr) (indexed : s.manager.IndexedBy P)
    (all : ∀ msg ∈ s.manager.disposedBy e, P msg.roleAttr) (step : ChannelManager.step hash s e = some s') :
    s'.manager.IndexedBy P := by
  intro writer
  rw [indexes_step step]
  exact indexed.dispose_all keys _ all writer

/-- The accepted change messages carry the fields by which roles are filed and matched. -/
def Carrying (s : State) : Event → Prop
  | .join attr role => ∀ msg, s.manager.localMsg attr role .join = some msg → Carries msg.roleAttr
  | .leave attr role => ∀ msg, s.manager.localMsg attr role .leave = some msg → Carries msg.roleAttr
  | .onRemoteChange msg => ∀ msg', s.manager.remoteMsg msg = some msg' → Carries msg'.roleAttr
  | _ => True

section
variable {hash : String → UInt64} {s s' : State} {e : Event}

theorem indexed_init (host : String) (pid : Int) : (init host pid).Indexed := by
  intro writer
  have empty : ∀ key, Filed [] key := fun _ _ member => absurd member List.not_mem_nil
  cases writer
  · exact ⟨⟨empty _, empty _, .refl _⟩, fun _ member => absurd member List.not_mem_nil⟩
  · exact ⟨⟨empty _, empty _, .refl _⟩, fun _ member => absurd member List.not_mem_nil⟩

theorem indexed_step (indexed : s.manager.Indexed) (carrying : Carrying s e) (step : step hash s e = some s') :
    s'.manager.Indexed := by
  refine IndexedBy.step (fun _ carries => carries.keyed) indexed (fun msg member => ?_) step
  cases e with
  | join attr role | leave attr role | onRemoteChange msg' => exact carrying msg (Option.mem_toList.mp member)
  | onTopoModuleLeave host pid =>
    obtain ⟨attr, writer, role, inIndex, rfl⟩ := mem_disposedBy_topo member
    have carries := (indexed writer).2 attr inIndex
    rw [convert_carries carries]
    exact carries
  | _ => exact absurd member List.not_mem_nil

theorem indexed_reach {host : String} {pid : Int} (reach : (machine hash host pid).ReachWhen Carrying s) :
    s.manager.Indexed :=
  reach.invariant (P := fun s => s.manager.Indexed) (indexed_init host pid) fun _ _ _ indexed carrying step =>
    indexed_step indexed carrying step

/-- In every run the two indexes of the writers, and those of the readers, hold the same roles, each under its own id.
When a process leaves while the discovery is on, exactly its roles go from all four, and each of them with one
notification. -/
theorem indexes_agree {host : String} {pid : Int} (reach : (machine hash host pid).ReachWhen Carrying s) :
    (∀ writer, (s.manager.indexes writer).Agree) ∧
    ∀ h p, s.manager.isDiscoveryStarted = true →
      ∃ manager sent, s.manager.onTopoModuleLeaveNotify h p = (manager, sent) ∧
        (machine hash host pid).step s (.onTopoModuleLeave h p) = some { s with manager := manager } ∧
        (∀ writer,
          (manager.indexes writer).byNode.roles =
            (s.manager.indexes writer).byNode.roles.filter (fun r => !Of h p r) ∧
          (manager.indexes writer).byChannel.roles =
            (s.manager.indexes writer).byChannel.roles.filter (fun r => !Of h p r)) ∧
        sent = (s.manager.channelWriters.roles.filter (Of h p)).map (leaveMsg .writer) ++
          (s.manager.channelReaders.roles.filter (Of h p)).map (leaveMsg .reader) := by
  have indexed := indexed_reach reach
  refine ⟨fun writer => (indexed writer).1, fun h p started => ?_⟩
  obtain ⟨_, left, sent⟩ := onTopoModuleLeaveNotify_spec indexed started h p
  refine ⟨(s.manager.onTopoModuleLeaveNotify h p).1, (s.manager.onTopoModuleLeaveNotify h p).2, rfl, ?_, left, sent⟩
  rw [onTopoModuleLeaveNotify_fst]
  rfl

/-- A writer of process 2 on another host. -/
def remoteWriter (id : UInt64) : RoleAttributes where
  hostName := some "board"
  hostIp := none
  processId := some 2
  nodeName := some "talker"
  nodeId := some 6
  channelName := some "chatter"
  channelId := some 7
  id := some id

theorem remoteWriter_carries (id : UInt64) : Carries (remoteWriter id) :=
  ⟨rfl, rfl, rfl, rfl, rfl⟩

/-- Two writers with the same attributes join while the discovery is on, and their process leaves: both go, and there
is a notification for each. -/
theorem indexes_agree_twice :
    let es : List Event := [.startDiscovery true, .onRemoteChange ⟨.join, .writer, remoteWriter 3⟩,
      .onRemoteChange ⟨.join, .writer, remoteWriter 3⟩]
    let s := (machine (fun name => name.length.toUInt64) "pc" 1).stateAt es es.length
    (s.manager.indexes true).Agree ∧ ∃ manager sent, s.manager.onTopoModuleLeaveNotify "board" 2 = (manager, sent) ∧
      (manager.indexes true).byNode.roles = [] ∧
      sent = [leaveMsg .writer (remoteWriter 3), leaveMsg .writer (remoteWriter 3)] := by
  intro es s
  have meets : (machine (fun name => name.length.toUInt64) "pc" 1).Meets Carrying
      (machine (fun name => name.length.toUInt64) "pc" 1).init es := by
    refine ⟨trivial, fun msg made => ?_, fun msg made => ?_, trivial⟩
    · obtain rfl := Option.some.inj made
      exact remoteWriter_carries 3
    · obtain rfl := Option.some.inj made
      exact remoteWriter_carries 3
  have reach := Machine.stateAt_reachWhen es meets rfl
  obtain ⟨agree, leaves⟩ := indexes_agree reach
  obtain ⟨manager, sent, result, _, left, told⟩ := leaves "board" 2 rfl
  refine ⟨agree true, manager, sent, result, (left true).1.trans (by decide), told.trans (by decide)⟩

/-- A writer of the process itself. -/
def localWriter : RoleAttributes :=
  { remoteWriter 3 with hostName := some "pc", processId := some 1 }

theorem localWriter_carries : Carries localWriter :=
  ⟨rfl, rfl, rfl, rfl, rfl⟩

/-- Before the discovery is started, a process that leaves keeps its roles. -/
theorem indexes_agree_not_started :
    ¬∀ s, (machine (fun name => name.length.toUInt64) "pc" 1).ReachWhen Carrying s → ∀ h p s',
      (machine (fun name => name.length.toUInt64) "pc" 1).step s (.onTopoModuleLeave h p) = some s' →
      ∀ r ∈ s'.manager.channelWriters.roles, Of h p r = false := by
  intro always
  let es : List Event := [.join localWriter .writer]
  have meets : (machine (fun name => name.length.toUInt64) "pc" 1).Meets Carrying
      (machine (fun name => name.length.toUInt64) "pc" 1).init es := by
    refine ⟨fun msg made => ?_, trivial⟩
    obtain rfl := Option.some.inj made
    exact localWriter_carries
  have kept := always _ (Machine.stateAt_reachWhen es meets rfl) "pc" 1 _ rfl localWriter (by decide)
  exact absurd kept (by decide)

end

end CyberRT.ChannelManager

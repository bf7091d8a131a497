import CyberRT.ServiceDiscovery.ChannelRegistry

namespace CyberRT.ChannelManager
open Concur MultiValueWarehouse

/-- The registered roles of one kind. -/
def rolesOf (m : ChannelManager) (writer : Bool) : List RoleAttributes :=
  if writer then m.channelWriters.roles else m.channelReaders.roles

/-- The ends of one kind of an incidence. -/
def ends (i : Incidence) (writer : Bool) : Finset (String × Vertice) :=
  if writer then i.sources else i.dests

/-- The incidence that the registered roles describe: a node is a source of each channel on which it has
a writer, and a destination of each channel on which it has a reader. -/
def registered (m : ChannelManager) : Incidence :=
  ⟨((m.rolesOf true).map endOf).toFinset, ((m.rolesOf false).map endOf).toFinset⟩

/-- The graph shows the incidence. -/
structure Drawn (m : ChannelManager) (i : Incidence) : Prop where
  tracks : m.nodeGraph.Tracks i
  exact : m.nodeGraph.Exact
  distinct : i.Distinct
  closed : m.nodeGraph.Closed

theorem mem_registered {m : ChannelManager} (writer : Bool) {x : String × Vertice} :
    x ∈ ends (registered m) writer ↔ ∃ r ∈ m.rolesOf writer, endOf r = x := by
  cases writer <;> simp [ends, registered]

theorem eq_registered {m : ChannelManager} {i : Incidence}
    (same : ∀ writer x, x ∈ ends i writer ↔ ∃ r ∈ m.rolesOf writer, endOf r = x) : i = registered m := by
  have ends_eq : ∀ writer, ends i writer = ends (registered m) writer := by
    intro writer
    ext x
    rw [same, mem_registered]
  cases i
  simp only [registered, Incidence.mk.injEq]
  exact ⟨ends_eq true, ends_eq false⟩

variable {hash : String → UInt64} {names : Set String} {m : ChannelManager} {i : Incidence}

theorem ends_insert {attr : RoleAttributes} (proper : Proper hash names attr) (role : RoleType) (writer : Bool) :
    ends (i.apply (.insert (edgeOf role attr))) writer =
      if writer = decide (role = .writer) then ends i writer ∪ {endOf attr} else ends i writer := by
  have node := proper.node
  have channel := proper.channel
  by_cases kind : role = .writer <;> cases writer <;>
    simp [ends, Incidence.apply, Incidence.sourceEnd, Incidence.destEnd, edgeOf, kind, Edge.isValid,
      Vertice.isDummy, node, channel, endOf]

theorem ends_delete {attr : RoleAttributes} (proper : Proper hash names attr) (role : RoleType) (writer : Bool) :
    ends (i.apply (.delete (edgeOf role attr))) writer =
      if writer = decide (role = .writer) then ends i writer \ {endOf attr} else ends i writer := by
  have node := proper.node
  have channel := proper.channel
  by_cases kind : role = .writer <;> cases writer <;>
    simp [ends, Incidence.apply, Incidence.sourceEnd, Incidence.destEnd, edgeOf, kind, Edge.isValid,
      Vertice.isDummy, node, channel, endOf]

theorem disposeJoin_rolesOf (msg : ChangeMsg) (writer : Bool) :
    (m.disposeJoin msg).rolesOf writer =
      if writer = decide (msg.roleType = .writer) then m.rolesOf writer ++ [msg.roleAttr] else m.rolesOf writer := by
  by_cases kind : msg.roleType = .writer <;> cases writer <;> simp [rolesOf, disposeJoin, kind, roles_add]

theorem disposeLeave_rolesOf (sound : Sound hash names m) (msg : ChangeMsg)
    (proper : Proper hash names msg.roleAttr) (writer : Bool) :
    (m.disposeLeave msg).rolesOf writer =
      if writer = decide (msg.roleType = .writer) then
        (m.rolesOf writer).filter fun r => !RoleWriter.matchAttr r msg.roleAttr
      else m.rolesOf writer := by
  by_cases kind : msg.roleType = .writer <;> cases writer <;>
    simp [rolesOf, disposeLeave, kind, sound.writers.roles_remove proper, sound.readers.roles_remove proper]

theorem Sound.disposeJoin (sound : Sound hash names m) {msg : ChangeMsg}
    (proper : Proper hash names msg.roleAttr) : Sound hash names (m.disposeJoin msg) := by
  unfold ChannelManager.disposeJoin
  by_cases kind : msg.roleType = .writer
  · simp only [kind, if_true]
    exact ⟨sound.writers.add proper, sound.readers⟩
  · simp only [kind, if_false]
    exact ⟨sound.writers, sound.readers.add proper⟩

theorem Sound.disposeLeave (sound : Sound hash names m) (msg : ChangeMsg)
    (proper : Proper hash names msg.roleAttr) : Sound hash names (m.disposeLeave msg) := by
  unfold ChannelManager.disposeLeave
  by_cases kind : msg.roleType = .writer
  · simp only [kind, if_true]
    exact ⟨sound.writers.remove proper, sound.readers⟩
  · simp only [kind, if_false]
    exact ⟨sound.writers, sound.readers.remove proper⟩

theorem disposeJoin_nodeGraph (msg : ChangeMsg) :
    (m.disposeJoin msg).nodeGraph = m.nodeGraph.insert (edgeOf msg.roleType msg.roleAttr) := by
  unfold disposeJoin
  split <;> rfl

theorem disposeLeave_nodeGraph (msg : ChangeMsg) :
    (m.disposeLeave msg).nodeGraph = m.nodeGraph.delete (edgeOf msg.roleType msg.roleAttr) := by
  unfold disposeLeave
  split <;> rfl

theorem Drawn.disposeJoin (drawn : Drawn m i) (msg : ChangeMsg)
    (distinct : (i.apply (.insert (edgeOf msg.roleType msg.roleAttr))).Distinct) :
    Drawn (m.disposeJoin msg) (i.apply (.insert (edgeOf msg.roleType msg.roleAttr))) := by
  obtain ⟨tracks, exact⟩ := drawn.tracks.insert (edgeOf msg.roleType msg.roleAttr)
  constructor
  · rw [disposeJoin_nodeGraph]
    exact tracks
  · rw [disposeJoin_nodeGraph]
    exact exact distinct drawn.exact
  · exact distinct
  · rw [disposeJoin_nodeGraph]
    exact drawn.closed.insert _

theorem Drawn.disposeLeave (drawn : Drawn m i) (msg : ChangeMsg) :
    Drawn (m.disposeLeave msg) (i.apply (.delete (edgeOf msg.roleType msg.roleAttr))) := by
  obtain ⟨tracks, exact⟩ := drawn.tracks.delete (edgeOf msg.roleType msg.roleAttr)
  constructor
  · rw [disposeLeave_nodeGraph]
    exact tracks
  · rw [disposeLeave_nodeGraph]
    exact exact drawn.distinct drawn.exact
  · exact drawn.distinct.mono Finset.sdiff_subset Finset.sdiff_subset
  · rw [disposeLeave_nodeGraph]
    exact drawn.closed.delete _

/-- A role that joins becomes an end of the graph. -/
theorem Drawn.join_registered (drawn : Drawn m (registered m)) {msg : ChangeMsg}
    (proper : Proper hash names msg.roleAttr)
    (distinct : ((registered m).apply (.insert (edgeOf msg.roleType msg.roleAttr))).Distinct) :
    Drawn (m.disposeJoin msg) (registered (m.disposeJoin msg)) := by
  refine eq_registered (fun writer x => ?_) ▸ drawn.disposeJoin msg distinct
  rw [ends_insert proper, disposeJoin_rolesOf]
  split
  · rw [Finset.mem_union, mem_registered, Finset.mem_singleton]
    simp [or_and_right, exists_or, eq_comm]
  · exact mem_registered writer

/-- The roles of one kind that share channel and node with a leaving role leave too. -/
def Alone (m : ChannelManager) (writer : Bool) (attrs : List RoleAttributes) : Prop :=
  ∀ a ∈ attrs, ∀ r ∈ m.rolesOf writer, endOf r = endOf a → ∃ a' ∈ attrs, RoleWriter.matchAttr r a' = true

theorem convert_proper {attr : RoleAttributes} (proper : Proper hash names attr) (role : RoleType)
    (opt : OperateType) : m.convert attr role opt = ⟨opt, role, attr⟩ := by
  simp [convert, proper.hostName, proper.processId]

/-- The roles and the ends that are left when some roles leave one after the other. -/
theorem leaveAll_spec (role : RoleType) {attrs : List RoleAttributes}
    (proper : ∀ a ∈ attrs, Proper hash names a) (sound : Sound hash names m) (drawn : Drawn m i) :
    Sound hash names (leaveAll role m attrs) ∧
      (∀ writer, (leaveAll role m attrs).rolesOf writer =
        if writer = decide (role = .writer) then
          (m.rolesOf writer).filter fun r => !attrs.any fun a => RoleWriter.matchAttr r a
        else m.rolesOf writer) ∧
      ∃ i', Drawn (leaveAll role m attrs) i' ∧ ∀ writer x, x ∈ ends i' writer ↔
        x ∈ ends i writer ∧ (writer = decide (role = .writer) → x ∉ attrs.map endOf) := by
  induction attrs generalizing m i with
  | nil => exact ⟨sound, by simp [leaveAll], i, drawn, by simp⟩
  | cons a attrs ih =>
    obtain ⟨head, tail⟩ := List.forall_mem_cons.mp proper
    have step : leaveAll role m (a :: attrs) = leaveAll role (m.disposeLeave ⟨.leave, role, a⟩) attrs := by
      rw [leaveAll, List.foldl_cons, convert_proper head, leaveAll]
    obtain ⟨sound', roles, i', drawn', members⟩ := ih tail (sound.disposeLeave ⟨.leave, role, a⟩ head)
      (drawn.disposeLeave ⟨.leave, role, a⟩)
    rw [step]
    refine ⟨sound', fun writer => ?_, i', drawn', fun writer x => ?_⟩
    · rw [roles, disposeLeave_rolesOf sound ⟨.leave, role, a⟩ head]
      split
      · rw [List.filter_filter]
        simp [Bool.and_comm]
      · rfl
    · rw [members, ends_delete head]
      split
      · rename_i kind
        simp [kind, and_assoc]
      · rename_i kind
        simp [kind]

/-- When roles leave together with all others of their node and channel, the graph follows. -/
theorem leaveAll_registered (apart : Set.InjOn hash names) (role : RoleType) {attrs : List RoleAttributes}
    (proper : ∀ a ∈ attrs, Proper hash names a) (sound : Sound hash names m) (drawn : Drawn m (registered m))
    (alone : Alone m (decide (role = .writer)) attrs) :
    Sound hash names (leaveAll role m attrs) ∧ Drawn (leaveAll role m attrs) (registered (leaveAll role m attrs)) := by
  obtain ⟨sound', roles, i', drawn', members⟩ := leaveAll_spec role proper sound drawn
  have known : ∀ r ∈ m.rolesOf (decide (role = .writer)), Proper hash names r := by
    intro r member
    by_cases kind : role = .writer
    · simp only [kind, decide_true, rolesOf, if_true] at member
      exact sound.writers.proper r member
    · simp only [kind, decide_false, rolesOf] at member
      exact sound.readers.proper r member
  refine ⟨sound', eq_registered (fun writer x => ?_) ▸ drawn'⟩
  rw [members, roles, mem_registered]
  split
  · rename_i kind
    subst kind
    simp only [forall_const, List.mem_map, not_exists, not_and, List.mem_filter, Bool.not_eq_true',
      List.any_eq_false, Bool.not_eq_true]
    constructor
    · rintro ⟨⟨r, member, rfl⟩, kept⟩
      refine ⟨r, ⟨member, fun a leaving => ?_⟩, rfl⟩
      by_contra hit
      rw [Bool.not_eq_false] at hit
      exact kept a leaving ((proper a leaving).endOf_eq apart (known r member) hit).symm
    · rintro ⟨r, ⟨member, kept⟩, rfl⟩
      refine ⟨⟨r, member, rfl⟩, fun a leaving same => ?_⟩
      obtain ⟨a', leaving', hit⟩ := alone a leaving r member same.symm
      rw [kept a' leaving'] at hit
      cases hit
  · rename_i kind
    simp [kind]

end CyberRT.ChannelManager

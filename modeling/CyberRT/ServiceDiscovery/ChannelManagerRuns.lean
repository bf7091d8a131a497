import CyberRT.ServiceDiscovery.ChannelManagerGraph

namespace CyberRT.ChannelManager
open Concur MultiValueWarehouse

/-- A change message that the registry and the graph take in the same way: its role is proper, a role
that joins brings no two edges of one source with the same key, and a role that leaves is the last of
its kind on its channel and node. -/
def AllowedMsg (hash : String → UInt64) (names : Set String) (m : ChannelManager) (msg : ChangeMsg) : Prop :=
  Proper hash names msg.roleAttr ∧
    if msg.operateType = .join then ((registered m).apply (.insert (edgeOf msg.roleType msg.roleAttr))).Distinct
    else m.Alone (decide (msg.roleType = .writer)) [msg.roleAttr]

/-- The events under which registry and graph agree. -/
def Allowed (hash : String → UInt64) (names : Set String) (s : State) : Event → Prop
  | .join attr role => ∀ msg, s.manager.localMsg attr role .join = some msg → AllowedMsg hash names s.manager msg
  | .leave attr role => ∀ msg, s.manager.localMsg attr role .leave = some msg → AllowedMsg hash names s.manager msg
  | .onRemoteChange msg => ∀ msg', s.manager.remoteMsg msg = some msg' → AllowedMsg hash names s.manager msg'
  | .onTopoModuleLeave host pid => s.manager.isDiscoveryStarted = true →
      s.manager.Alone true (s.manager.channelWriters.searchAttr (ofProcess host pid)) ∧
        s.manager.Alone false (s.manager.channelReaders.searchAttr (ofProcess host pid))
  | .registerNode name | .registerChannel name | .getUpstreamOfNode name | .getDownstreamOfNode name => name ∈ names
  | .startDiscovery _ | .stopDiscovery | .shutdown | .getFlowDirection _ _ => True

/-- What holds in every state that allowed events reach. -/
structure Inv (hash : String → UInt64) (names : Set String) (s : State) : Prop where
  sound : Sound hash names s.manager
  drawn : Drawn s.manager (registered s.manager)
  plain : Plain hash names s.globalData

variable {hash : String → UInt64} {names : Set String}

theorem inv_init (host : String) (pid : Int) : Inv hash names (machine hash host pid).init where
  sound := ⟨shelf_empty, shelf_empty⟩
  drawn := ⟨Graph.empty_tracks, Graph.empty_exact, (by decide : Incidence.Distinct ⟨∅, ∅⟩),
    fun s k d found => by cases found⟩
  plain := ⟨IdMap.plain_empty hash names, IdMap.plain_empty hash names⟩

theorem disposeLeave_eq_leaveAll {m : ChannelManager} {msg : ChangeMsg} (proper : Proper hash names msg.roleAttr) :
    m.disposeLeave msg = leaveAll msg.roleType m [msg.roleAttr] := by
  rw [leaveAll, List.foldl_cons, convert_proper proper]
  rfl

theorem dispose_inv (apart : Set.InjOn hash names) {m : ChannelManager} (sound : Sound hash names m)
    (drawn : Drawn m (registered m)) {msg : ChangeMsg} (allowed : AllowedMsg hash names m msg) :
    Sound hash names (m.dispose msg) ∧ Drawn (m.dispose msg) (registered (m.dispose msg)) := by
  obtain ⟨proper, kind⟩ := allowed
  unfold dispose
  split
  · rename_i join
    rw [if_pos join] at kind
    exact ⟨sound.disposeJoin proper, drawn.join_registered proper kind⟩
  · rename_i leave
    rw [if_neg leave] at kind
    rw [disposeLeave_eq_leaveAll proper]
    exact leaveAll_registered apart msg.roleType (fun a member => List.mem_singleton.mp member ▸ proper) sound drawn
      kind

theorem disposeIfAny_inv (apart : Set.InjOn hash names) {m : ChannelManager} (sound : Sound hash names m)
    (drawn : Drawn m (registered m)) {msg? : Option ChangeMsg}
    (allowed : ∀ msg, msg? = some msg → AllowedMsg hash names m msg) :
    Sound hash names (m.disposeIfAny msg?) ∧ Drawn (m.disposeIfAny msg?) (registered (m.disposeIfAny msg?)) := by
  cases msg? with
  | none => exact ⟨sound, drawn⟩
  | some msg => exact dispose_inv apart sound drawn (allowed msg rfl)

theorem onTopoModuleLeave_inv (apart : Set.InjOn hash names) {m : ChannelManager} (sound : Sound hash names m)
    (drawn : Drawn m (registered m)) {host : String} {pid : Int}
    (writers : m.isDiscoveryStarted = true → m.Alone true (m.channelWriters.searchAttr (ofProcess host pid)))
    (readers : m.isDiscoveryStarted = true → m.Alone false (m.channelReaders.searchAttr (ofProcess host pid))) :
    Sound hash names (m.onTopoModuleLeave host pid) ∧
      Drawn (m.onTopoModuleLeave host pid) (registered (m.onTopoModuleLeave host pid)) := by
  unfold onTopoModuleLeave
  by_cases started : m.isDiscoveryStarted = true
  · simp only [started, Bool.not_true, Bool.false_eq_true, if_false]
    have properWriters : ∀ a ∈ m.channelWriters.searchAttr (ofProcess host pid), Proper hash names a :=
      fun a member => sound.writers.proper a (mem_searchAttr.mp member).1
    have properReaders : ∀ a ∈ m.channelReaders.searchAttr (ofProcess host pid), Proper hash names a :=
      fun a member => sound.readers.proper a (mem_searchAttr.mp member).1
    obtain ⟨sound', drawn'⟩ := leaveAll_registered apart .writer properWriters sound drawn (writers started)
    refine leaveAll_registered apart .reader properReaders sound' drawn' ?_
    have same := (leaveAll_spec .writer properWriters sound drawn).2.1 false
    rw [Alone, show decide (RoleType.reader = .writer) = false from rfl, same]
    exact readers started
  · simp only [started, Bool.not_false, if_true]
    exact ⟨sound, drawn⟩

theorem step_inv (apart : Set.InjOn hash names) {s s' : State} {e : Event} (inv : Inv hash names s)
    (allowed : Allowed hash names s e) (step : step hash s e = some s') : Inv hash names s' := by
  obtain ⟨sound, drawn, plain⟩ := inv
  cases e with
  | startDiscovery created =>
    cases Option.some.inj step
    unfold startDiscovery
    split
    · exact ⟨sound, drawn, plain⟩
    · exact ⟨⟨sound.writers, sound.readers⟩, ⟨drawn.tracks, drawn.exact, drawn.distinct, drawn.closed⟩, plain⟩
  | stopDiscovery =>
    cases Option.some.inj step
    exact ⟨⟨sound.writers, sound.readers⟩, ⟨drawn.tracks, drawn.exact, drawn.distinct, drawn.closed⟩, plain⟩
  | shutdown =>
    cases Option.some.inj step
    unfold shutdown
    split
    · exact ⟨sound, drawn, plain⟩
    · exact ⟨⟨sound.writers, sound.readers⟩, ⟨drawn.tracks, drawn.exact, drawn.distinct, drawn.closed⟩, plain⟩
  | join attr role =>
    cases Option.some.inj step
    obtain ⟨sound', drawn'⟩ := disposeIfAny_inv apart sound drawn allowed
    exact ⟨sound', drawn', plain⟩
  | leave attr role =>
    cases Option.some.inj step
    obtain ⟨sound', drawn'⟩ := disposeIfAny_inv apart sound drawn allowed
    exact ⟨sound', drawn', plain⟩
  | onRemoteChange msg =>
    cases Option.some.inj step
    obtain ⟨sound', drawn'⟩ := disposeIfAny_inv apart sound drawn allowed
    exact ⟨sound', drawn', plain⟩
  | onTopoModuleLeave host pid =>
    cases Option.some.inj step
    obtain ⟨sound', drawn'⟩ := onTopoModuleLeave_inv apart sound drawn (fun started => (allowed started).1)
      (fun started => (allowed started).2)
    exact ⟨sound', drawn', plain⟩
  | registerNode name =>
    obtain ⟨gd', registered, plain'⟩ := plain.registerNode apart allowed
    simp only [ChannelManager.step, registered, Option.map_some, Option.some.injEq] at step
    exact step ▸ ⟨sound, drawn, plain'⟩
  | registerChannel name =>
    obtain ⟨gd', registered, plain'⟩ := plain.registerChannel apart allowed
    simp only [ChannelManager.step, registered, Option.map_some, Option.some.injEq] at step
    exact step ▸ ⟨sound, drawn, plain'⟩
  | getUpstreamOfNode name =>
    obtain ⟨nodes, gd', found, plain', _⟩ := getUpstreamOfNode_spec sound plain apart allowed
    simp only [ChannelManager.step, found, Option.map_some, Option.some.injEq] at step
    exact step ▸ ⟨sound, drawn, plain'⟩
  | getDownstreamOfNode name =>
    obtain ⟨nodes, gd', found, plain', _⟩ := getDownstreamOfNode_spec sound plain apart allowed
    simp only [ChannelManager.step, found, Option.map_some, Option.some.injEq] at step
    exact step ▸ ⟨sound, drawn, plain'⟩
  | getFlowDirection lhs rhs =>
    cases Option.some.inj step
    have padded := s.manager.nodeGraph.getDirectionOf_padded ⟨lhs⟩ ⟨rhs⟩
    exact ⟨⟨sound.writers, sound.readers⟩,
      ⟨padded.tracks drawn.tracks, padded.exact drawn.exact, drawn.distinct, padded.closed drawn.closed⟩, plain⟩

/-- `GetDownstreamOfNode` of the first node lists the second. -/
def Downstream (hash : String → UInt64) (s : State) (a b : String) : Prop :=
  ∃ nodes gd, s.manager.getDownstreamOfNode hash s.globalData a = some (nodes, gd) ∧
    b ∈ nodes.map RoleAttributes.getNodeName

/-- A chain of nodes in which each is downstream of the one before. -/
def Chain (hash : String → UInt64) (s : State) : String → String → Prop :=
  Relation.TransGen (Downstream hash s)

variable {s : State}

/-- A node has a writer, the other a reader, on one channel. -/
def Joined (m : ChannelManager) (a b : String) : Prop :=
  ∃ w ∈ m.rolesOf true, w.getNodeName = a ∧
    ∃ r ∈ m.rolesOf false, r.getChannelName = w.getChannelName ∧ r.getNodeName = b

theorem Inv.downstream_iff (inv : Inv hash names s) (apart : Set.InjOn hash names) {a b : String} (known : a ∈ names) :
    Downstream hash s a b ↔ Joined s.manager a b := by
  obtain ⟨nodes, gd, found, _, members⟩ := getDownstreamOfNode_spec inv.sound inv.plain apart known
  refine Iff.trans ?_ (members b)
  constructor
  · rintro ⟨nodes', gd', found', member⟩
    cases found.symm.trans found'
    exact member
  · intro member
    exact ⟨nodes, gd, found, member⟩

theorem Inv.next_iff (inv : Inv hash names s) {a b : Vertice} :
    Graph.Next s.manager.nodeGraph.list a b ↔ Joined s.manager a.value b.value := by
  have entry_iff := fun k => inv.drawn.exact a.getKey k b
  simp only [Graph.Next]
  constructor
  · rintro ⟨k, found⟩
    obtain ⟨e, whole, src, _, rfl⟩ := (entry_iff k).mp found
    obtain rfl := Vertice.getKey_inj.mp src
    obtain ⟨source, dest⟩ := Incidence.mem_complete.mp ((inv.drawn.tracks.complete_iff e).mp whole)
    obtain ⟨w, writer, wEnd⟩ := (mem_registered true).mp source
    obtain ⟨r, reader, rEnd⟩ := (mem_registered false).mp dest
    simp only [endOf, Prod.mk.injEq] at wEnd rEnd
    exact ⟨w, writer, congrArg Vertice.value wEnd.2, r, reader, rEnd.1.trans wEnd.1.symm,
      congrArg Vertice.value rEnd.2⟩
  · rintro ⟨w, writer, nodeA, r, reader, channel, nodeB⟩
    refine ⟨_, (entry_iff _).mpr ⟨⟨a, b, w.getChannelName⟩, (inv.drawn.tracks.complete_iff _).mpr ?_, rfl, rfl, rfl⟩⟩
    refine Incidence.mem_complete.mpr ⟨?_, ?_⟩
    · exact (mem_registered true).mpr ⟨w, writer, by rw [endOf, nodeA]⟩
    · exact (mem_registered false).mpr ⟨r, reader, by rw [endOf, channel, nodeB]⟩

theorem Inv.proper (inv : Inv hash names s) {writer : Bool} {r : RoleAttributes}
    (member : r ∈ s.manager.rolesOf writer) : Proper hash names r := by
  cases writer with
  | true => exact inv.sound.writers.proper r member
  | false => exact inv.sound.readers.proper r member

/-- A path in the graph goes through registered nodes only, so the guards of `GetDirectionOf` hold. -/
theorem Inv.flow_iff (inv : Inv hash names s) {a b : String} (different : a ≠ b) :
    (s.manager.getFlowDirection a b).1 = .upstream ↔ Relation.TransGen (Joined s.manager) a b := by
  have lift : Relation.TransGen (Graph.Next s.manager.nodeGraph.list) ⟨a⟩ ⟨b⟩ ↔
      Relation.TransGen (Joined s.manager) a b := by
    constructor
    · exact Relation.TransGen.lift Vertice.value (fun x y step => inv.next_iff.mp step) _ _
    · exact Relation.TransGen.lift Vertice.mk (fun x y step => inv.next_iff.mpr step) _ _
  rw [getFlowDirection, Graph.getDirectionOf_upstream, Graph.Path, Relation.reflTransGen_iff_eq_or_transGen, ← lift]
  constructor
  · rintro ⟨_, _, same | path⟩
    · exact absurd (congrArg Vertice.value same).symm different
    · exact path
  · intro path
    obtain ⟨x, first, _⟩ := Relation.TransGen.head'_iff.mp path
    obtain ⟨y, _, last⟩ := Relation.TransGen.tail'_iff.mp path
    obtain ⟨w, writer, nodeA, _⟩ := inv.next_iff.mp first
    obtain ⟨_, _, _, r, reader, _, nodeB⟩ := inv.next_iff.mp last
    have nonemptyA : a ≠ "" := fun empty => (inv.proper writer).node (nodeA.trans empty)
    have nonemptyB : b ≠ "" := fun empty => (inv.proper reader).node (nodeB.trans empty)
    refine ⟨⟨by simpa [Vertice.isDummy], by simpa [Vertice.isDummy]⟩, ⟨?_, ?_⟩, Or.inr path⟩
    · obtain ⟨k, found⟩ := first
      by_contra absent
      rw [Table.get_of_notMem absent] at found
      cases found
    · obtain ⟨k, found⟩ := last
      exact inv.drawn.closed _ _ _ found

theorem Inv.chain_iff (inv : Inv hash names s) (apart : Set.InjOn hash names) {a b : String} (known : a ∈ names) :
    Chain hash s a b ↔ Relation.TransGen (Joined s.manager) a b := by
  constructor
  · intro chain
    -- Only the first node is assumed to be known; the later ones are known as readers.
    have both : Relation.TransGen (Joined s.manager) a b ∧ b ∈ names := by
      induction chain with
      | single step =>
        have joined := (inv.downstream_iff apart known).mp step
        obtain ⟨_, _, _, r, reader, _, rfl⟩ := id joined
        exact ⟨.single joined, (inv.proper reader).nodeKnown⟩
      | tail _ step ih =>
        have joined := (inv.downstream_iff apart ih.2).mp step
        obtain ⟨_, _, _, r, reader, _, rfl⟩ := id joined
        exact ⟨.tail ih.1 joined, (inv.proper reader).nodeKnown⟩
    exact both.1
  · refine Relation.TransGen.mono (fun x y joined => ?_) _ _
    have known' : x ∈ names := by
      obtain ⟨w, writer, rfl, _⟩ := joined
      exact (inv.proper writer).nodeKnown
    exact (inv.downstream_iff apart known').mpr joined

/-- In every run of allowed events, the source and destination sets of a channel are the nodes with a
registered writer and reader on it, and a node is upstream of another exactly if a chain of downstream
nodes leads from it to the other. -/
theorem graph_follows_registry (apart : Set.InjOn hash names) {host : String} {pid : Int}
    (reach : (machine hash host pid).ReachWhen (Allowed hash names) s) :
    (∀ channel node, s.manager.nodeGraph.Source channel ⟨node⟩ ↔
      ∃ w ∈ s.manager.channelWriters.roles, w.getChannelName = channel ∧ w.getNodeName = node) ∧
    (∀ channel node, s.manager.nodeGraph.Dest channel ⟨node⟩ ↔
      ∃ r ∈ s.manager.channelReaders.roles, r.getChannelName = channel ∧ r.getNodeName = node) ∧
    ∀ a b, a ∈ names → a ≠ b → ((s.manager.getFlowDirection a b).1 = .upstream ↔ Chain hash s a b) := by
  have inv : Inv hash names s := reach.invariant (inv_init host pid) fun s e s' inv allowed step =>
    step_inv apart inv allowed step
  refine ⟨fun channel node => ?_, fun channel node => ?_, fun a b known different => ?_⟩
  · rw [inv.drawn.tracks.source]
    refine (mem_registered true).trans ?_
    simp [endOf, rolesOf]
  · rw [inv.drawn.tracks.dest]
    refine (mem_registered false).trans ?_
    simp [endOf, rolesOf]
  · rw [inv.flow_iff different, inv.chain_iff apart known]

def lengthHash (name : String) : UInt64 :=
  name.length.toUInt64

/-- A role of this process on the channel `chatter`. -/
def chatterRole (node : String) (id : UInt64) : RoleAttributes where
  hostName := some "pc"
  hostIp := none
  processId := some 1
  nodeName := some node
  nodeId := some (lengthHash node)
  channelName := some "chatter"
  channelId := some (lengthHash "chatter")
  id := some id

def oneWriter : List Event :=
  [.join (chatterRole "listener" 1) .reader, .join (chatterRole "talker" 2) .writer]

def chatterNames : Set String :=
  {name | name ∈ ["talker", "listener", "chatter"]}

instance (name : String) : Decidable (name ∈ chatterNames) :=
  inferInstanceAs (Decidable (name ∈ ["talker", "listener", "chatter"]))

theorem lengthHash_injOn : Set.InjOn lengthHash chatterNames := by
  intro x hx y hy
  simp only [chatterNames, Set.mem_ofPred_eq, List.mem_cons, List.not_mem_nil, or_false] at hx hy
  rcases hx with rfl | rfl | rfl <;> rcases hy with rfl | rfl | rfl <;> decide

theorem chatterRole_proper {node : String} (named : node ≠ "") (known : node ∈ chatterNames) (id : UInt64) :
    Proper lengthHash chatterNames (chatterRole node id) :=
  ⟨named, (by decide : "chatter" ≠ ""), known, (by decide : "chatter" ∈ chatterNames), rfl, rfl, rfl, rfl, rfl⟩

theorem oneWriter_follows :
    let s := (machine lengthHash "pc" 1).stateAt oneWriter 2
    (machine lengthHash "pc" 1).ReachWhen (Allowed lengthHash chatterNames) s ∧
      s.manager.nodeGraph.Source "chatter" ⟨"talker"⟩ ∧
      (s.manager.getFlowDirection "talker" "listener").1 = .upstream := by
  have meets : (machine lengthHash "pc" 1).Meets (Allowed lengthHash chatterNames)
      (machine lengthHash "pc" 1).init oneWriter := by
    refine ⟨fun msg made => ?_, fun msg made => ?_, trivial⟩
    · obtain rfl := Option.some.inj made
      refine ⟨chatterRole_proper (by decide) (by decide) 1, ?_⟩
      exact (if_pos (show OperateType.join = .join from rfl)).mpr (by decide)
    · obtain rfl := Option.some.inj made
      refine ⟨chatterRole_proper (by decide) (by decide) 2, ?_⟩
      exact (if_pos (show OperateType.join = .join from rfl)).mpr (by decide)
  have reach := Machine.stateAt_reachWhen oneWriter meets rfl
  obtain ⟨source, _, flow⟩ := graph_follows_registry lengthHash_injOn reach
  refine ⟨reach, (source "chatter" "talker").mpr ⟨chatterRole "talker" 2, by decide, rfl, rfl⟩, ?_⟩
  exact (flow "talker" "listener" (by decide) (by decide)).mpr (.single ⟨_, _, rfl, by decide⟩)

/-- A node with two writers on a channel closes one of them. -/
def twoWriters : List Event :=
  oneWriter ++ [.join (chatterRole "talker" 3) .writer, .leave (chatterRole "talker" 3) .writer]

/-- The graph has lost the node that still writes the channel: its reader is downstream of it, but the
flow direction does not say so. -/
theorem twoWriters_lost :
    let s := (machine lengthHash "pc" 1).stateAt twoWriters 4
    (machine lengthHash "pc" 1).Reach s ∧ chatterRole "talker" 2 ∈ s.manager.channelWriters.roles ∧
      ¬ s.manager.nodeGraph.Source "chatter" ⟨"talker"⟩ ∧ Chain lengthHash s "talker" "listener" ∧
      (s.manager.getFlowDirection "talker" "listener").1 ≠ .upstream := by
  intro s
  have none : (s.manager.nodeGraph.list.get "talker").entries = [] := by decide
  refine ⟨Machine.stateAt_reach twoWriters rfl, by decide, ?_, .single ⟨_, _, rfl, by decide⟩, ?_⟩
  · unfold Graph.Source
    decide
  · intro upstream
    obtain ⟨_, _, path⟩ := (Graph.getDirectionOf_upstream _ _).mp upstream
    rcases path.cases_head with same | ⟨d, ⟨k, found⟩, _⟩
    · exact absurd same (by decide)
    · have member := Table.mem_entries_iff.mpr found
      rw [show Vertice.getKey ⟨"talker"⟩ = "talker" from rfl, none] at member
      cases member

end CyberRT.ChannelManager

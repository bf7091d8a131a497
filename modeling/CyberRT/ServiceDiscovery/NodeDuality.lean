import CyberRT.Common.NameIds
import CyberRT.ServiceDiscovery.ChannelIndexes
import CyberRT.ServiceDiscovery.NodeQueries

namespace CyberRT
open Concur

namespace IdMap
variable {hash : String → UInt64} {map map' : IdMap} {name other : String} {key k : UInt64}

/-- Where a search for one name ends does not depend on another name that gets a different id. -/
theorem probe_insert (differs : name ≠ other) (apart : k ≠ key) {fuel fuel' : Nat} (enough : fuel ≤ fuel')
    {id : UInt64} (found : map.probe name fuel id = some key) :
    IdMap.probe (map.insert k other) name fuel' id = some key := by
  induction fuel generalizing fuel' id with
  | zero => cases found
  | succ fuel ih =>
    obtain ⟨fuel', rfl⟩ : ∃ n, fuel' = n + 1 := ⟨fuel' - 1, by omega⟩
    have here : (map.insert k other).lookup id = if id = k then some other else map.lookup id :=
      Table.lookup_insert_eq map k id other
    cases taken : map.lookup id with
    | none =>
      simp only [probe, taken, Option.some.injEq] at found
      subst found
      rw [if_neg (Ne.symm apart), taken] at here
      simp only [probe, here]
    | some found' =>
      by_cases same : name = found'
      · subst same
        simp only [probe, taken, if_true, Option.some.injEq] at found
        subst found
        rw [if_neg (Ne.symm apart), taken] at here
        simp only [probe, here, if_true]
      · simp only [probe, taken, if_neg same] at found
        have rest := ih (Nat.le_of_succ_le_succ enough) found
        rw [taken] at here
        by_cases own : id = k
        · rw [if_pos own] at here
          simpa only [probe, here, if_neg differs] using rest
        · rw [if_neg own] at here
          simpa only [probe, here, if_neg same] using rest

/-- A name has the same id after the registration of a name with another id. -/
theorem register_other (registered : map.register hash other = some (k, map'))
    (here : ∃ map'', map.register hash name = some (key, map'')) (differs : name ≠ other) (apart : k ≠ key) :
    ∃ map'', map'.register hash name = some (key, map'') := by
  obtain ⟨map'', before⟩ := here
  obtain ⟨id, found, stored⟩ := Option.bind_eq_some_iff.mp before
  cases stored
  have grows := (register_grows registered).1.size_le
  obtain ⟨id', _, stored'⟩ := Option.bind_eq_some_iff.mp registered
  cases stored'
  have again := probe_insert differs apart (Nat.add_le_add_right grows 1) found
  exact ⟨AList.insert key name (AList.insert k other map), by simp [register, again]⟩

/-- The map gives each of the names its id. -/
def Gives (hash : String → UInt64) (names : Set String) (idOf : String → UInt64) (map : IdMap) : Prop :=
  ∀ name ∈ names, ∃ map', map.register hash name = some (idOf name, map')

theorem Gives.register {names : Set String} {idOf : String → UInt64} (gives : map.Gives hash names idOf)
    (apart : Set.InjOn idOf names) (known : name ∈ names) :
    ∃ map', map.register hash name = some (idOf name, map') ∧ map'.Gives hash names idOf := by
  obtain ⟨map', registered⟩ := gives name known
  refine ⟨map', registered, fun other known' => ?_⟩
  by_cases same : other = name
  · subst same
    exact ⟨_, register_again registered (.refl _)⟩
  · exact register_other registered (gives other known') same fun equal => same (apart known' known equal.symm)

end IdMap

namespace ChannelManager
variable {hash : String → UInt64} {nodes channels : Set String} {nodeId channelId : String → UInt64} {s : State}

/-- The tables give the names their ids. -/
structure Gives (hash : String → UInt64) (nodes channels : Set String) (nodeId channelId : String → UInt64)
    (gd : GlobalData) : Prop where
  node : gd.nodeIdMap.Gives hash nodes nodeId
  channel : gd.channelIdMap.Gives hash channels channelId

theorem Gives.resolves (nodesApart : Set.InjOn nodeId nodes) (channelsApart : Set.InjOn channelId channels) :
    Resolves hash nodes channels nodeId channelId (Gives hash nodes channels nodeId channelId) where
  node gd gives name known := by
    obtain ⟨map, registered, after⟩ := gives.node.register nodesApart known
    exact ⟨{ gd with nodeIdMap := map }, by simp [GlobalData.registerNode, registered], after, gives.channel⟩
  channel gd gives name known := by
    obtain ⟨map, registered, after⟩ := gives.channel.register channelsApart known
    exact ⟨{ gd with channelIdMap := map }, by simp [GlobalData.registerChannel, registered], gives.node, after⟩
  nodesApart := nodesApart
  channelsApart := channelsApart

/-- The ids are in agreement with the names: those that this process gives, and those that the roles carry. -/
structure InAgreement (hash : String → UInt64) (nodes channels : Set String) (nodeId channelId : String → UInt64)
    (s : State) : Prop where
  gives : Gives hash nodes channels nodeId channelId s.globalData
  nodesApart : Set.InjOn nodeId nodes
  channelsApart : Set.InjOn channelId channels
  named : ∀ writer, ∀ r ∈ (s.manager.indexes writer).byChannel.roles, Named nodes channels nodeId channelId r

/-- The accepted change messages carry the ids under which roles are filed. -/
def Keying (s : State) : Event → Prop
  | .join attr role => ∀ msg, s.manager.localMsg attr role .join = some msg → Keyed msg.roleAttr
  | .leave attr role => ∀ msg, s.manager.localMsg attr role .leave = some msg → Keyed msg.roleAttr
  | .onRemoteChange msg => ∀ msg', s.manager.remoteMsg msg = some msg' → Keyed msg'.roleAttr
  | _ => True

theorem Keyed.convert {attr : RoleAttributes} (keyed : Keyed attr) (m : ChannelManager) (role : RoleType)
    (opt : OperateType) : Keyed (m.convert attr role opt).roleAttr := by
  unfold ChannelManager.convert
  dsimp only
  split <;> split <;> exact ⟨keyed.nodeId, keyed.channelId⟩

theorem indexedBy_reach {host : String} {pid : Int} (reach : (machine hash host pid).ReachWhen Keying s) :
    s.manager.IndexedBy Keyed := by
  refine reach.invariant (P := fun s => s.manager.IndexedBy Keyed) ?_ ?_
  · intro writer
    obtain ⟨agree, -⟩ := indexed_init host pid writer
    exact ⟨agree, fun r member => absurd member (by cases writer <;> exact List.not_mem_nil)⟩
  · intro s e s' indexed keying step
    refine indexed.step (fun _ keyed => keyed) (fun msg member => ?_) step
    cases e with
    | join attr role | leave attr role | onRemoteChange msg' => exact keying msg (Option.mem_toList.mp member)
    | onTopoModuleLeave host pid =>
      obtain ⟨attr, writer, role, inIndex, rfl⟩ := mem_disposedBy_topo member
      exact ((indexed writer).2 attr inIndex).convert ..
    | _ => exact absurd member List.not_mem_nil

theorem InAgreement.filing (agreement : InAgreement hash nodes channels nodeId channelId s)
    (indexed : s.manager.IndexedBy Keyed) (writer : Bool) :
    Filing nodes channels nodeId channelId (s.manager.indexes writer).byNode (s.manager.indexes writer).byChannel where
  filedNode := (indexed writer).1.filedNode
  filedChannel := (indexed writer).1.filedChannel
  same := (indexed writer).1.same
  named := agreement.named writer

/-- A channel has a writer of the one node and a reader of the other. -/
def Feeds (m : ChannelManager) (a b : String) : Prop :=
  ∃ w ∈ m.channelWriters.roles, ∃ r ∈ m.channelReaders.roles,
    w.getNodeName = a ∧ r.getNodeName = b ∧ w.getChannelName = r.getChannelName

/-- A node lists another one downstream if and only if this one lists it upstream, that is, if there is a channel from
the one to the other. Neither lists a node twice, and the ids stay in agreement with the names. -/
theorem upstream_downstream_dual {host : String} {pid : Int} (reach : (machine hash host pid).ReachWhen Keying s)
    (agreement : InAgreement hash nodes channels nodeId channelId s) {a b : String} (knownA : a ∈ nodes)
    (knownB : b ∈ nodes) : ∃ down gd up gd', s.manager.getDownstreamOfNode hash s.globalData a = some (down, gd) ∧
      s.manager.getUpstreamOfNode hash s.globalData b = some (up, gd') ∧
      (b ∈ down.map RoleAttributes.getNodeName ↔ a ∈ up.map RoleAttributes.getNodeName) ∧
      (b ∈ down.map RoleAttributes.getNodeName ↔ s.manager.Feeds a b) ∧
      (down.map RoleAttributes.getNodeName).Nodup ∧ (up.map RoleAttributes.getNodeName).Nodup ∧
      InAgreement hash nodes channels nodeId channelId { s with globalData := gd } ∧
      InAgreement hash nodes channels nodeId channelId { s with globalData := gd' } := by
  have indexed := indexedBy_reach reach
  have resolves : Resolves hash nodes channels nodeId channelId _ :=
    Gives.resolves agreement.nodesApart agreement.channelsApart
  have writers := agreement.filing indexed true
  have readers := agreement.filing indexed false
  obtain ⟨down, gd, downstream, gives, once, below⟩ :=
    resolves.downstreamOfNode agreement.gives writers readers knownA
  obtain ⟨up, gd', upstream, gives', once', above⟩ := resolves.upstreamOfNode agreement.gives writers readers knownB
  have fromA : b ∈ down.map RoleAttributes.getNodeName ↔ s.manager.Feeds a b := by
    rw [below]
    constructor
    · rintro ⟨w, inWriters, node, r, inReaders, channel, node'⟩
      exact ⟨w, inWriters, r, inReaders, node, node', channel.symm⟩
    · rintro ⟨w, inWriters, r, inReaders, node, node', channel⟩
      exact ⟨w, inWriters, node, r, inReaders, channel.symm, node'⟩
  have toB : a ∈ up.map RoleAttributes.getNodeName ↔ s.manager.Feeds a b := by
    rw [above]
    constructor
    · rintro ⟨r, inReaders, node', w, inWriters, channel, node⟩
      exact ⟨w, inWriters, r, inReaders, node, node', channel⟩
    · rintro ⟨w, inWriters, r, inReaders, node, node', channel⟩
      exact ⟨r, inReaders, node', w, inWriters, channel, node⟩
  exact ⟨down, gd, up, gd', downstream, upstream, fromA.trans toB.symm, fromA, once, once',
    ⟨gives, agreement.nodesApart, agreement.channelsApart, agreement.named⟩,
    ⟨gives', agreement.nodesApart, agreement.channelsApart, agreement.named⟩⟩

/-- Two nodes whose names have the same hash value, registered in this order, and a channel between them. -/
def collidingNodes : List Event :=
  [.registerNode "talker", .registerNode "viewer",
    .onRemoteChange ⟨.join, .writer, ⟨some "board", none, some 2, some "talker", some 6, some "chatter", some 7, some 3⟩⟩,
    .onRemoteChange ⟨.join, .reader, ⟨some "board", none, some 2, some "viewer", some 7, some "chatter", some 7, some 4⟩⟩]

def collidingId (name : String) : UInt64 :=
  if name = "talker" then 6 else 7

def afterColliding : State :=
  (machine (fun name => name.length.toUInt64) "pc" 1).stateAt collidingNodes 4

theorem afterColliding_agreement : InAgreement (fun name => name.length.toUInt64) {"talker", "viewer"} {"chatter"}
    collidingId (fun _ => 7) afterColliding where
  gives := by
    refine ⟨?_, ?_⟩
    · rintro name (rfl | rfl)
      · exact ⟨_, rfl⟩
      · exact ⟨_, rfl⟩
    · rintro name rfl
      exact ⟨_, rfl⟩
  nodesApart := by
    rintro a (rfl | rfl) b (rfl | rfl) same
    · rfl
    · exact absurd same (by decide)
    · exact absurd same (by decide)
    · rfl
  channelsApart := by
    rintro a rfl b rfl _
    rfl
  named := by
    intro writer r member
    cases writer with
    | true =>
      obtain rfl := List.mem_singleton.mp member
      exact ⟨.inl rfl, rfl, rfl, rfl⟩
    | false =>
      obtain rfl := List.mem_singleton.mp member
      exact ⟨.inr rfl, rfl, rfl, rfl⟩

theorem upstream_downstream_dual_colliding :
    ∃ down gd up gd', afterColliding.manager.getDownstreamOfNode (fun name => name.length.toUInt64)
        afterColliding.globalData "talker" = some (down, gd) ∧
      afterColliding.manager.getUpstreamOfNode (fun name => name.length.toUInt64) afterColliding.globalData "viewer" =
        some (up, gd') ∧
      "viewer" ∈ down.map RoleAttributes.getNodeName ∧ "talker" ∈ up.map RoleAttributes.getNodeName := by
  have reach : (machine (fun name => name.length.toUInt64) "pc" 1).ReachWhen Keying afterColliding := by
    refine Machine.stateAt_reachWhen collidingNodes ⟨trivial, trivial, ?_, ?_, trivial⟩ rfl
    · intro msg made
      obtain rfl := Option.some.inj made
      exact ⟨rfl, rfl⟩
    · intro msg made
      obtain rfl := Option.some.inj made
      exact ⟨rfl, rfl⟩
  obtain ⟨down, gd, up, gd', downstream, upstream, dual, feeds, _⟩ :=
    upstream_downstream_dual reach afterColliding_agreement (a := "talker") (b := "viewer") (.inl rfl) (.inr rfl)
  have listed := feeds.mpr ⟨_, List.mem_singleton_self _, _, List.mem_singleton_self _, rfl, rfl, rfl⟩
  exact ⟨down, gd, up, gd', downstream, upstream, listed, dual.mp listed⟩

end ChannelManager

end CyberRT

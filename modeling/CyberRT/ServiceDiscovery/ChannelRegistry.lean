import CyberRT.ServiceDiscovery.NodeQueries

namespace CyberRT.ChannelManager
open Concur MultiValueWarehouse

/-- A role as the nodes of this system announce it: it names its node and channel, by names of the given
set whose hash values are its ids, and it tells its process. -/
structure Proper (hash : String → UInt64) (names : Set String) (attr : RoleAttributes) : Prop where
  node : attr.getNodeName ≠ ""
  channel : attr.getChannelName ≠ ""
  nodeKnown : attr.getNodeName ∈ names
  channelKnown : attr.getChannelName ∈ names
  nodeId : attr.nodeId = some (hash attr.getNodeName)
  channelId : attr.channelId = some (hash attr.getChannelName)
  id : attr.id.isSome
  hostName : attr.hostName.isSome
  processId : attr.processId.isSome

/-- The channel and the node that a role joins. -/
def endOf (attr : RoleAttributes) : String × Vertice :=
  (attr.getChannelName, ⟨attr.getNodeName⟩)

/-- The roles of one kind, filed by node and by channel. -/
structure Shelf (hash : String → UInt64) (names : Set String) (byNode byChannel : MultiValueWarehouse) : Prop where
  filedNode : byNode.Filed RoleAttributes.getNodeId
  filedChannel : byChannel.Filed RoleAttributes.getChannelId
  same : byNode.roles.Perm byChannel.roles
  proper : ∀ r ∈ byChannel.roles, Proper hash names r

variable {hash : String → UInt64} {names : Set String}

theorem Proper.getNodeId_eq {attr : RoleAttributes} (proper : Proper hash names attr) :
    attr.getNodeId = hash attr.getNodeName := by
  rw [RoleAttributes.getNodeId, proper.nodeId, Option.getD_some]

theorem Proper.getChannelId_eq {attr : RoleAttributes} (proper : Proper hash names attr) :
    attr.getChannelId = hash attr.getChannelName := by
  rw [RoleAttributes.getChannelId, proper.channelId, Option.getD_some]

/-- A role that matches a proper one has its ids and its process. -/
theorem Proper.of_match {attr r : RoleAttributes} (proper : Proper hash names attr)
    (hit : RoleWriter.matchAttr r attr = true) :
    r.getChannelId = attr.getChannelId ∧ r.getNodeId = attr.getNodeId ∧
      r.getProcessId = attr.getProcessId ∧ r.getHostName = attr.getHostName := by
  obtain ⟨channel, _, node, process, host⟩ := RoleWriter.matchAttr_iff.mp hit
  exact ⟨(channel (by simp [proper.channelId])).symm, (node (by simp [proper.nodeId])).symm,
    (process proper.processId).symm, (host proper.hostName).symm⟩

theorem Proper.endOf_eq {attr r : RoleAttributes} (proper : Proper hash names attr) (apart : Set.InjOn hash names)
    (proper' : Proper hash names r) (hit : RoleWriter.matchAttr r attr = true) : endOf r = endOf attr := by
  obtain ⟨channel, node, _⟩ := proper.of_match hit
  rw [proper.getChannelId_eq, proper'.getChannelId_eq] at channel
  rw [proper.getNodeId_eq, proper'.getNodeId_eq] at node
  rw [endOf, endOf, apart proper'.channelKnown proper.channelKnown channel,
    apart proper'.nodeKnown proper.nodeKnown node]

theorem shelf_empty : Shelf hash names [] [] :=
  ⟨fun _ none => absurd none (by simp), fun _ none => absurd none (by simp), .refl _,
    fun _ none => absurd none (by simp [roles])⟩

variable {byNode byChannel : MultiValueWarehouse}

theorem Shelf.add (shelf : Shelf hash names byNode byChannel) {attr : RoleAttributes}
    (proper : Proper hash names attr) :
    Shelf hash names (byNode.add attr.getNodeId attr) (byChannel.add attr.getChannelId attr) where
  filedNode := shelf.filedNode.add attr
  filedChannel := shelf.filedChannel.add attr
  same := by
    rw [roles_add, roles_add]
    exact shelf.same.append_right _
  proper := by
    intro r member
    rw [roles_add] at member
    rcases List.mem_append.mp member with old | new
    · exact shelf.proper r old
    · rw [List.mem_singleton.mp new]
      exact proper

theorem Shelf.roles_remove (shelf : Shelf hash names byNode byChannel) {attr : RoleAttributes}
    (proper : Proper hash names attr) :
    (byChannel.remove attr.getChannelId attr).roles = byChannel.roles.filter fun r => !RoleWriter.matchAttr r attr :=
  shelf.filedChannel.roles_remove fun _ hit => (proper.of_match hit).1

theorem Shelf.remove (shelf : Shelf hash names byNode byChannel) {attr : RoleAttributes}
    (proper : Proper hash names attr) :
    Shelf hash names (byNode.remove attr.getNodeId attr) (byChannel.remove attr.getChannelId attr) where
  filedNode := shelf.filedNode.remove _ attr
  filedChannel := shelf.filedChannel.remove _ attr
  same := by
    rw [shelf.roles_remove proper, shelf.filedNode.roles_remove fun _ hit => (proper.of_match hit).2.1]
    exact shelf.same.filter _
  proper := by
    intro r member
    rw [shelf.roles_remove proper] at member
    exact shelf.proper r (List.mem_filter.mp member).1

/-- Both kinds of roles. -/
structure Sound (hash : String → UInt64) (names : Set String) (m : ChannelManager) : Prop where
  writers : Shelf hash names m.nodeWriters m.channelWriters
  readers : Shelf hash names m.nodeReaders m.channelReaders

/-- The ids that this process gave out are hash values. -/
structure Plain (hash : String → UInt64) (names : Set String) (gd : GlobalData) : Prop where
  nodes : gd.nodeIdMap.Plain hash names
  channels : gd.channelIdMap.Plain hash names

section
variable {m : ChannelManager} {gd : GlobalData}

theorem Plain.registerNode (plain : Plain hash names gd) (apart : Set.InjOn hash names) {name : String}
    (known : name ∈ names) : ∃ gd', gd.registerNode hash name = some (hash name, gd') ∧ Plain hash names gd' := by
  obtain ⟨map, registered, plain'⟩ := plain.nodes.register apart known
  exact ⟨{ gd with nodeIdMap := map }, by simp [GlobalData.registerNode, registered], plain', plain.channels⟩

theorem Plain.registerChannel (plain : Plain hash names gd) (apart : Set.InjOn hash names) {name : String}
    (known : name ∈ names) :
    ∃ gd', gd.registerChannel hash name = some (hash name, gd') ∧ Plain hash names gd' := by
  obtain ⟨map, registered, plain'⟩ := plain.channels.register apart known
  exact ⟨{ gd with channelIdMap := map }, by simp [GlobalData.registerChannel, registered], plain.nodes, plain'⟩

theorem Plain.resolves (apart : Set.InjOn hash names) : Resolves hash names names hash hash (Plain hash names) where
  node _ plain _ known := plain.registerNode apart known
  channel _ plain _ known := plain.registerChannel apart known
  nodesApart := apart
  channelsApart := apart

theorem Shelf.filing (shelf : Shelf hash names byNode byChannel) : Filing names names hash hash byNode byChannel where
  filedNode := shelf.filedNode
  filedChannel := shelf.filedChannel
  same := shelf.same
  named r member :=
    have proper := shelf.proper r member
    ⟨proper.nodeKnown, proper.channelKnown, proper.getNodeId_eq, proper.getChannelId_eq⟩

/-- A node lies downstream of another if it reads a channel that the other writes. -/
theorem getDownstreamOfNode_spec (sound : Sound hash names m) (plain : Plain hash names gd)
    (apart : Set.InjOn hash names) {name : String} (known : name ∈ names) :
    ∃ nodes gd', m.getDownstreamOfNode hash gd name = some (nodes, gd') ∧ Plain hash names gd' ∧
      ∀ b, b ∈ nodes.map RoleAttributes.getNodeName ↔
        ∃ w ∈ m.channelWriters.roles, w.getNodeName = name ∧
          ∃ r ∈ m.channelReaders.roles, r.getChannelName = w.getChannelName ∧ r.getNodeName = b := by
  obtain ⟨nodes, gd', result, plain', _, members⟩ :=
    (Plain.resolves apart).downstreamOfNode plain sound.writers.filing sound.readers.filing known
  exact ⟨nodes, gd', result, plain', members⟩

/-- A node lies upstream of another if it writes a channel that the other reads. -/
theorem getUpstreamOfNode_spec (sound : Sound hash names m) (plain : Plain hash names gd)
    (apart : Set.InjOn hash names) {name : String} (known : name ∈ names) :
    ∃ nodes gd', m.getUpstreamOfNode hash gd name = some (nodes, gd') ∧ Plain hash names gd' ∧
      ∀ b, b ∈ nodes.map RoleAttributes.getNodeName ↔
        ∃ r ∈ m.channelReaders.roles, r.getNodeName = name ∧
          ∃ w ∈ m.channelWriters.roles, w.getChannelName = r.getChannelName ∧ w.getNodeName = b := by
  obtain ⟨nodes, gd', result, plain', _, members⟩ :=
    (Plain.resolves apart).upstreamOfNode plain sound.writers.filing sound.readers.filing known
  exact ⟨nodes, gd', result, plain', members⟩

end

end CyberRT.ChannelManager

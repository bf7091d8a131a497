import CyberRT.ServiceDiscovery.ChannelManager

namespace CyberRT.ChannelManager
open Concur MultiValueWarehouse

/-- Every entry is that of its node, and the nodes are those that were there and those of the roles. -/
theorem foldl_nodeAttr (roles : List RoleAttributes) (nodes : Table String RoleAttributes)
    (own : ∀ k x, nodes.lookup k = some x → x.getNodeName = k) :
    let result := roles.foldl (fun nodes role => nodes.insert (nodeAttr role).getNodeName (nodeAttr role)) nodes
    (∀ k x, result.lookup k = some x → x.getNodeName = k) ∧
      ∀ k, k ∈ result ↔ k ∈ nodes ∨ ∃ r ∈ roles, r.getNodeName = k := by
  induction roles generalizing nodes with
  | nil => exact ⟨own, by simp⟩
  | cons r roles ih =>
    have own' : ∀ k x, (nodes.insert (nodeAttr r).getNodeName (nodeAttr r)).lookup k = some x → x.getNodeName = k := by
      intro k x found
      rw [Table.lookup_insert_eq] at found
      split at found
      · rename_i here
        rw [← Option.some.inj found, here]
      · exact own k x found
    obtain ⟨names, keys⟩ := ih _ own'
    refine ⟨names, fun k => ?_⟩
    rw [List.foldl_cons, keys, AList.mem_insert]
    have same : (nodeAttr r).getNodeName = r.getNodeName := rfl
    simp only [same, List.mem_cons, exists_eq_or_imp, eq_comm (a := k), or_assoc, or_left_comm]

/-- The nodes listed for some roles are the nodes of these roles. -/
theorem mem_nodesOf {roles : List RoleAttributes} {name : String} :
    name ∈ (nodesOf roles).map RoleAttributes.getNodeName ↔ ∃ r ∈ roles, r.getNodeName = name := by
  obtain ⟨own, keys⟩ := foldl_nodeAttr roles ∅ (fun k x found => by cases found)
  have listed := (keys name).trans (or_iff_right (AList.notMem_empty name))
  rw [← listed]
  simp only [nodesOf, List.map_map, List.mem_map, Function.comp]
  constructor
  · rintro ⟨⟨k, x⟩, member, rfl⟩
    have found := Table.mem_entries_iff.mp member
    rw [own k x found]
    exact Table.mem_iff_lookup.mpr ⟨x, found⟩
  · intro member
    obtain ⟨x, found⟩ := Table.mem_iff_lookup.mp member
    exact ⟨⟨name, x⟩, Table.mem_entries_iff.mpr found, own name x found⟩

/-- No node is listed twice. -/
theorem nodup_nodesOf (roles : List RoleAttributes) : ((nodesOf roles).map RoleAttributes.getNodeName).Nodup := by
  obtain ⟨own, -⟩ := foldl_nodeAttr roles ∅ (fun k x found => by cases found)
  unfold nodesOf
  generalize roles.foldl (fun nodes role => nodes.insert (nodeAttr role).getNodeName (nodeAttr role))
    (∅ : Table String RoleAttributes) = nodes at own
  have keys : (nodes.entries.map fun item => item.2).map RoleAttributes.getNodeName = nodes.keys := by
    rw [List.map_map]
    exact List.map_congr_left fun item member => own item.1 item.2 (Table.mem_entries_iff.mp member)
  exact keys ▸ nodes.keys_nodup

/-- In the tables that are `Good`, the names have ids, different ones for different names, and a query that asks for an
id leaves `Good` tables. -/
structure Resolves (hash : String → UInt64) (nodes channels : Set String) (nodeId channelId : String → UInt64)
    (Good : GlobalData → Prop) : Prop where
  node : ∀ gd, Good gd → ∀ name ∈ nodes, ∃ gd', gd.registerNode hash name = some (nodeId name, gd') ∧ Good gd'
  channel : ∀ gd, Good gd → ∀ name ∈ channels,
    ∃ gd', gd.registerChannel hash name = some (channelId name, gd') ∧ Good gd'
  nodesApart : Set.InjOn nodeId nodes
  channelsApart : Set.InjOn channelId channels

/-- A role has the ids of its names. -/
structure Named (nodes channels : Set String) (nodeId channelId : String → UInt64) (r : RoleAttributes) : Prop where
  nodeKnown : r.getNodeName ∈ nodes
  channelKnown : r.getChannelName ∈ channels
  node : r.getNodeId = nodeId r.getNodeName
  channel : r.getChannelId = channelId r.getChannelName

/-- The roles of one kind, filed by node and by channel under the ids of their names. -/
structure Filing (nodes channels : Set String) (nodeId channelId : String → UInt64)
    (byNode byChannel : MultiValueWarehouse) : Prop where
  filedNode : byNode.Filed RoleAttributes.getNodeId
  filedChannel : byChannel.Filed RoleAttributes.getChannelId
  same : byNode.roles.Perm byChannel.roles
  named : ∀ r ∈ byChannel.roles, Named nodes channels nodeId channelId r

variable {hash : String → UInt64} {nodes channels : Set String} {nodeId channelId : String → UInt64}
  {Good : GlobalData → Prop} {byNode byChannel : MultiValueWarehouse} {m : ChannelManager} {gd : GlobalData}

theorem Filing.mem_of_node (filing : Filing nodes channels nodeId channelId byNode byChannel)
    (apart : Set.InjOn nodeId nodes) {name : String} (known : name ∈ nodes) {r : RoleAttributes} :
    r ∈ byNode.search (nodeId name) ↔ r ∈ byChannel.roles ∧ r.getNodeName = name := by
  rw [filing.filedNode.mem_search, filing.same.mem_iff]
  refine and_congr_right fun member => ?_
  have named := filing.named r member
  rw [named.node]
  exact apart.eq_iff named.nodeKnown known

theorem Filing.mem_of_channel (filing : Filing nodes channels nodeId channelId byNode byChannel)
    (apart : Set.InjOn channelId channels) {name : String} (known : name ∈ channels) {r : RoleAttributes} :
    r ∈ byChannel.search (channelId name) ↔ r ∈ byChannel.roles ∧ r.getChannelName = name := by
  rw [filing.filedChannel.mem_search]
  refine and_congr_right fun member => ?_
  have named := filing.named r member
  rw [named.channel]
  exact apart.eq_iff named.channelKnown known

/-- A query over channels collects the roles that are filed under their ids. -/
theorem ofChannels_spec {query : GlobalData → String → Option (List RoleAttributes × GlobalData)}
    {w : MultiValueWarehouse}
    (single : ∀ gd, Good gd → ∀ c ∈ channels, ∃ gd', query gd c = some (w.search (channelId c), gd') ∧ Good gd')
    (good : Good gd) {asked : List String} (known : ∀ c ∈ asked, c ∈ channels) :
    ∃ found gd', ofChannels query gd asked = some (found, gd') ∧ Good gd' ∧
      ∀ r, r ∈ found ↔ ∃ c ∈ asked, r ∈ w.search (channelId c) := by
  induction asked generalizing gd with
  | nil => exact ⟨[], gd, rfl, good, by simp⟩
  | cons c asked ih =>
    obtain ⟨head, tail⟩ := List.forall_mem_cons.mp known
    obtain ⟨gd₁, first, good₁⟩ := single gd good c head
    obtain ⟨rest, gd₂, second, good₂, members⟩ := ih good₁ tail
    refine ⟨w.search (channelId c) ++ rest, gd₂, by simp [ofChannels, first, second], good₂, fun r => ?_⟩
    simp [members]

/-- The channels of some roles, and the roles filed under them. -/
theorem ofChannels_names {query : GlobalData → String → Option (List RoleAttributes × GlobalData)}
    (filing : Filing nodes channels nodeId channelId byNode byChannel) (apart : Set.InjOn channelId channels)
    (single : ∀ gd, Good gd → ∀ c ∈ channels, ∃ gd', query gd c = some (byChannel.search (channelId c), gd') ∧ Good gd')
    (good : Good gd) {roles : List RoleAttributes} (named : ∀ w ∈ roles, Named nodes channels nodeId channelId w) :
    ∃ found gd', ofChannels query gd (roles.map RoleAttributes.getChannelName).dedup = some (found, gd') ∧ Good gd' ∧
      ∀ b, b ∈ (nodesOf found).map RoleAttributes.getNodeName ↔
        ∃ w ∈ roles, ∃ r ∈ byChannel.roles, r.getChannelName = w.getChannelName ∧ r.getNodeName = b := by
  have known : ∀ c ∈ (roles.map RoleAttributes.getChannelName).dedup, c ∈ channels := by
    intro c member
    obtain ⟨w, inRoles, rfl⟩ := List.mem_map.mp (List.mem_dedup.mp member)
    exact (named w inRoles).channelKnown
  obtain ⟨found, gd', result, good', members⟩ := ofChannels_spec single good known
  refine ⟨found, gd', result, good', fun b => ?_⟩
  rw [mem_nodesOf]
  constructor
  · rintro ⟨r, member, rfl⟩
    obtain ⟨c, inChannels, filed⟩ := (members r).mp member
    obtain ⟨inShelf, channel⟩ := (filing.mem_of_channel apart (known c inChannels)).mp filed
    obtain ⟨w, inRoles, rfl⟩ := List.mem_map.mp (List.mem_dedup.mp inChannels)
    exact ⟨w, inRoles, r, inShelf, channel, rfl⟩
  · rintro ⟨w, inRoles, r, inShelf, channel, rfl⟩
    have inChannels : w.getChannelName ∈ (roles.map RoleAttributes.getChannelName).dedup :=
      List.mem_dedup.mpr (List.mem_map_of_mem inRoles)
    exact ⟨r, (members r).mpr ⟨_, inChannels,
      (filing.mem_of_channel apart (known _ inChannels)).mpr ⟨inShelf, channel⟩⟩, rfl⟩

theorem Resolves.readersOfChannel (resolves : Resolves hash nodes channels nodeId channelId Good) (gd : GlobalData)
    (good : Good gd) (c : String) (known : c ∈ channels) :
    ∃ gd', m.getReadersOfChannel hash gd c = some (m.channelReaders.search (channelId c), gd') ∧ Good gd' := by
  obtain ⟨gd', registered, good'⟩ := resolves.channel gd good c known
  exact ⟨gd', by simp [getReadersOfChannel, registered], good'⟩

theorem Resolves.writersOfChannel (resolves : Resolves hash nodes channels nodeId channelId Good) (gd : GlobalData)
    (good : Good gd) (c : String) (known : c ∈ channels) :
    ∃ gd', m.getWritersOfChannel hash gd c = some (m.channelWriters.search (channelId c), gd') ∧ Good gd' := by
  obtain ⟨gd', registered, good'⟩ := resolves.channel gd good c known
  exact ⟨gd', by simp [getWritersOfChannel, registered], good'⟩

/-- A node lies downstream of another if it reads a channel that the other writes. -/
theorem Resolves.downstreamOfNode (resolves : Resolves hash nodes channels nodeId channelId Good) (good : Good gd)
    (writers : Filing nodes channels nodeId channelId m.nodeWriters m.channelWriters)
    (readers : Filing nodes channels nodeId channelId m.nodeReaders m.channelReaders) {name : String}
    (known : name ∈ nodes) : ∃ nodes gd', m.getDownstreamOfNode hash gd name = some (nodes, gd') ∧ Good gd' ∧
      (nodes.map RoleAttributes.getNodeName).Nodup ∧ ∀ b, b ∈ nodes.map RoleAttributes.getNodeName ↔
        ∃ w ∈ m.channelWriters.roles, w.getNodeName = name ∧
          ∃ r ∈ m.channelReaders.roles, r.getChannelName = w.getChannelName ∧ r.getNodeName = b := by
  obtain ⟨gd₁, registered, good₁⟩ := resolves.node gd good name known
  have ofNode := fun r => writers.mem_of_node resolves.nodesApart known (r := r)
  unfold getDownstreamOfNode getWritersOfNode
  simp only [registered, Option.bind_eq_bind, Option.bind_some, Option.pure_def]
  generalize m.nodeWriters.search (nodeId name) = found at ofNode
  split
  · rename_i none
    rw [List.isEmpty_iff.mp none] at ofNode
    refine ⟨[], gd₁, rfl, good₁, List.nodup_nil, fun b => iff_of_false (by simp) ?_⟩
    rintro ⟨w, member, node, _⟩
    exact absurd ((ofNode w).mpr ⟨member, node⟩) (by simp)
  · obtain ⟨reading, gd₂, result, good₂, members⟩ := ofChannels_names readers resolves.channelsApart
      resolves.readersOfChannel good₁ fun w member => writers.named w ((ofNode w).mp member).1
    refine ⟨nodesOf reading, gd₂, by simp [result], good₂, nodup_nodesOf _, fun b => ?_⟩
    rw [members]
    constructor
    · rintro ⟨w, member, reads⟩
      exact ⟨w, ((ofNode w).mp member).1, ((ofNode w).mp member).2, reads⟩
    · rintro ⟨w, member, node, reads⟩
      exact ⟨w, (ofNode w).mpr ⟨member, node⟩, reads⟩

/-- A node lies upstream of another if it writes a channel that the other reads. -/
theorem Resolves.upstreamOfNode (resolves : Resolves hash nodes channels nodeId channelId Good) (good : Good gd)
    (writers : Filing nodes channels nodeId channelId m.nodeWriters m.channelWriters)
    (readers : Filing nodes channels nodeId channelId m.nodeReaders m.channelReaders) {name : String}
    (known : name ∈ nodes) : ∃ nodes gd', m.getUpstreamOfNode hash gd name = some (nodes, gd') ∧ Good gd' ∧
      (nodes.map RoleAttributes.getNodeName).Nodup ∧ ∀ b, b ∈ nodes.map RoleAttributes.getNodeName ↔
        ∃ r ∈ m.channelReaders.roles, r.getNodeName = name ∧
          ∃ w ∈ m.channelWriters.roles, w.getChannelName = r.getChannelName ∧ w.getNodeName = b := by
  obtain ⟨gd₁, registered, good₁⟩ := resolves.node gd good name known
  have ofNode := fun r => readers.mem_of_node resolves.nodesApart known (r := r)
  unfold getUpstreamOfNode getReadersOfNode
  simp only [registered, Option.bind_eq_bind, Option.bind_some, Option.pure_def]
  generalize m.nodeReaders.search (nodeId name) = found at ofNode
  split
  · rename_i none
    rw [List.isEmpty_iff.mp none] at ofNode
    refine ⟨[], gd₁, rfl, good₁, List.nodup_nil, fun b => iff_of_false (by simp) ?_⟩
    rintro ⟨r, member, node, _⟩
    exact absurd ((ofNode r).mpr ⟨member, node⟩) (by simp)
  · obtain ⟨writing, gd₂, result, good₂, members⟩ := ofChannels_names writers resolves.channelsApart
      resolves.writersOfChannel good₁ fun r member => readers.named r ((ofNode r).mp member).1
    refine ⟨nodesOf writing, gd₂, by simp [result], good₂, nodup_nodesOf _, fun b => ?_⟩
    rw [members]
    constructor
    · rintro ⟨r, member, writes⟩
      exact ⟨r, ((ofNode r).mp member).1, ((ofNode r).mp member).2, writes⟩
    · rintro ⟨r, member, node, writes⟩
      exact ⟨r, (ofNode r).mpr ⟨member, node⟩, writes⟩

end CyberRT.ChannelManager

import CyberRT.ServiceDiscovery.NodeManager
import Mathlib.Data.List.Perm.Basic
import Mathlib.Data.Set.List

namespace CyberRT
open Concur

/-- The role that a message is about. -/
def RoleMsg.role (msg : RoleMsg) : Role :=
  ⟨msg.roleAttr, msg.timestamp⟩

namespace NodeManager
variable {m : NodeManager} {key : UInt64}

theorem disposeJoin_absent {msg : RoleMsg} (absent : m.nodes.lookup msg.roleAttr.getNodeId = none) :
    m.disposeJoin msg = { m with nodes := m.nodes.insert msg.roleAttr.getNodeId msg.role } := by
  simp [disposeJoin, SingleValueWarehouse.add, absent, RoleMsg.role]

theorem disposeJoin_present {msg : RoleMsg} {existing : Role}
    (present : m.nodes.lookup msg.roleAttr.getNodeId = some existing) :
    m.disposeJoin msg = { m with
      nodes := if msg.timestamp < existing.timestampNs then m.nodes.insert msg.roleAttr.getNodeId msg.role else m.nodes
      shutdownRequested :=
        m.shutdownRequested || m.isOwn (if msg.timestamp < existing.timestampNs then existing else msg.role) } := by
  simp [disposeJoin, SingleValueWarehouse.add, present, Role.isEarlierThan, RoleMsg.role]

/-- A join leaves what the manager is alone. -/
theorem disposeJoin_toManager (m : NodeManager) (msg : RoleMsg) : (m.disposeJoin msg).toManager = m.toManager := by
  cases present : m.nodes.lookup msg.roleAttr.getNodeId with
  | none => rw [disposeJoin_absent present]
  | some existing => rw [disposeJoin_present present]

theorem isOwn_congr {m' : NodeManager} (same : m'.toManager = m.toManager) (role : Role) :
    m'.isOwn role = m.isOwn role := by
  rw [isOwn, isOwn, same]

theorem disposed_congr {m' : NodeManager} (same : m'.toManager = m.toManager) (e : Manager.Event) :
    m'.disposed e = m.disposed e := by
  rw [disposed, disposed, same]

/-- After the messages the earliest of them is registered, and the shutdown was requested if another one is of this
process. -/
def Resolved (m : NodeManager) (key : UInt64) (msgs : List RoleMsg) : Prop :=
  (msgs = [] ∧ m.nodes.lookup key = none ∧ m.shutdownRequested = false) ∨
    ∃ first ∈ msgs, (∀ msg ∈ msgs, msg = first ∨ first.timestamp < msg.timestamp) ∧
      m.nodes.lookup key = some first.role ∧
      (m.shutdownRequested = true ↔ ∃ msg ∈ msgs, first.timestamp < msg.timestamp ∧ m.isOwn msg.role = true)

/-- The first message is registered. -/
theorem resolved_first (absent : m.nodes.lookup key = none) (quiet : m.shutdownRequested = false) {msg : RoleMsg}
    (id : msg.roleAttr.getNodeId = key) : Resolved (m.disposeJoin msg) key [msg] := by
  subst id
  rw [disposeJoin_absent absent]
  refine Or.inr ⟨msg, List.mem_singleton_self _, ?_, AList.lookup_insert _, ?_⟩
  · intro other member
    exact Or.inl (List.mem_singleton.mp member)
  · constructor
    · intro requested
      rw [show m.shutdownRequested = true from requested] at quiet
      cases quiet
    · rintro ⟨other, member, later, _⟩
      rw [List.mem_singleton.mp member] at later
      exact absurd later (Nat.lt_irrefl _)

/-- Every further message is compared with the earliest one so far, and the newer of the two is the one whose process is
to terminate. -/
theorem resolved_further {msgs : List RoleMsg} {first msg : RoleMsg} (inside : first ∈ msgs)
    (earliest : ∀ other ∈ msgs, other = first ∨ first.timestamp < other.timestamp)
    (present : m.nodes.lookup key = some first.role)
    (requested : m.shutdownRequested = true ↔
      ∃ other ∈ msgs, first.timestamp < other.timestamp ∧ m.isOwn other.role = true)
    (id : msg.roleAttr.getNodeId = key) (distinct : ∀ other ∈ msgs, other.timestamp ≠ msg.timestamp) :
    Resolved (m.disposeJoin msg) key (msgs ++ [msg]) := by
  subst id
  have own := isOwn_congr (disposeJoin_toManager m msg)
  have apart := distinct first inside
  have time : first.role.timestampNs = first.timestamp := rfl
  simp only [Resolved, own]
  rw [disposeJoin_present present]
  by_cases earlier : msg.timestamp < first.timestamp
  · -- The new message takes the place of the first one.
    simp only [time, earlier, if_true, Bool.or_eq_true, requested]
    refine Or.inr ⟨msg, List.mem_append_right _ (List.mem_singleton_self _), ?_, AList.lookup_insert _, ?_⟩
    · intro other member
      rcases List.mem_append.mp member with old | new
      · rcases earliest other old with rfl | later
        · exact Or.inr earlier
        · exact Or.inr (earlier.trans later)
      · exact Or.inl (List.mem_singleton.mp new)
    · constructor
      · rintro (⟨other, member, later, mine⟩ | mine)
        · exact ⟨other, List.mem_append_left _ member, earlier.trans later, mine⟩
        · exact ⟨first, List.mem_append_left _ inside, earlier, mine⟩
      · rintro ⟨other, member, later, mine⟩
        rcases List.mem_append.mp member with old | new
        · rcases earliest other old with rfl | behind
          · exact Or.inr mine
          · exact Or.inl ⟨other, old, behind, mine⟩
        · rw [List.mem_singleton.mp new] at later
          exact absurd later (Nat.lt_irrefl _)
  · have later : first.timestamp < msg.timestamp := by omega
    simp only [time, earlier, if_false, Bool.or_eq_true, requested]
    refine Or.inr ⟨first, List.mem_append_left _ inside, ?_, present, ?_⟩
    · intro other member
      rcases List.mem_append.mp member with old | new
      · exact earliest other old
      · rw [List.mem_singleton.mp new]
        exact Or.inr later
    · constructor
      · rintro (⟨other, member, behind, mine⟩ | mine)
        · exact ⟨other, List.mem_append_left _ member, behind, mine⟩
        · exact ⟨msg, List.mem_append_right _ (List.mem_singleton_self _), later, mine⟩
      · rintro ⟨other, member, behind, mine⟩
        rcases List.mem_append.mp member with old | new
        · exact Or.inl ⟨other, old, behind, mine⟩
        · rw [List.mem_singleton.mp new] at mine
          exact Or.inr mine

theorem Resolved.join {msgs : List RoleMsg} {msg : RoleMsg} (resolved : Resolved m key msgs)
    (id : msg.roleAttr.getNodeId = key) (distinct : ∀ other ∈ msgs, other.timestamp ≠ msg.timestamp) :
    Resolved (m.disposeJoin msg) key (msgs ++ [msg]) := by
  rcases resolved with ⟨none, absent, quiet⟩ | ⟨first, inside, earliest, present, requested⟩
  · rw [none]
    exact resolved_first absent quiet id
  · exact resolved_further inside earliest present requested id distinct

/-- A manager that disposes a message gives it to `DisposeJoin`. -/
theorem apply_join {e : Manager.Event} {msg : RoleMsg} (received : m.disposed e = some msg)
    (join : msg.operateType = .join) : m.apply e = m.disposeJoin msg := by
  cases e <;> simp_all [apply, dispose, disposed, Manager.disposed]

/-- The manager after the joins of the messages, one after the other. -/
theorem resolved_run {es : List Manager.Event} {msgs before : List RoleMsg} (resolved : Resolved m key before)
    (received : es.map m.disposed = msgs.map some)
    (joins : ∀ msg ∈ msgs, msg.operateType = .join ∧ msg.roleAttr.getNodeId = key)
    (distinct : (before ++ msgs).Pairwise fun x y => x.timestamp ≠ y.timestamp) :
    Resolved (es.foldl apply m) key (before ++ msgs) ∧ (es.foldl apply m).toManager = m.toManager := by
  induction es generalizing m before msgs with
  | nil =>
    cases msgs with
    | nil => exact ⟨by rwa [List.append_nil], rfl⟩
    | cons msg msgs => cases received
  | cons e es ih =>
    cases msgs with
    | nil => cases received
    | cons msg msgs =>
      obtain ⟨now, later⟩ := List.cons.inj received
      obtain ⟨join, id⟩ := joins msg (List.mem_cons_self ..)
      have first := apply_join now join
      have same : (m.apply e).toManager = m.toManager := by
        rw [first]
        exact disposeJoin_toManager m msg
      have apart : ∀ other ∈ before, other.timestamp ≠ msg.timestamp := fun other member =>
        (List.pairwise_append.mp distinct).2.2 other member msg (List.mem_cons_self ..)
      have step : Resolved (m.apply e) key (before ++ [msg]) := first ▸ resolved.join id apart
      have rest : es.map (m.apply e).disposed = msgs.map some := by
        rw [← later]
        exact List.map_congr_left fun e _ => disposed_congr same e
      rw [List.append_cons] at distinct ⊢
      obtain ⟨after, kept⟩ := ih step rest (fun msg member => joins msg (List.mem_cons_of_mem _ member)) distinct
      exact ⟨after, kept.trans same⟩

/-- However the joins of a node arrive, the earliest of them is registered in the end, and the process is to terminate
if and only if another one of them is its own. -/
theorem duplicates_resolved (absent : m.nodes.lookup key = none) (quiet : m.shutdownRequested = false)
    {msgs : List RoleMsg} (joins : ∀ msg ∈ msgs, msg.operateType = .join ∧ msg.roleAttr.getNodeId = key)
    (distinct : msgs.Pairwise fun x y => x.timestamp ≠ y.timestamp) {es : List Manager.Event}
    (received : (es.map m.disposed).Perm (msgs.map some)) :
    (∀ first ∈ msgs, (∀ msg ∈ msgs, first.timestamp ≤ msg.timestamp) →
      (es.foldl apply m).nodes.lookup key = some first.role) ∧
    ((es.foldl apply m).shutdownRequested = true ↔
      ∃ msg ∈ msgs, m.isOwn msg.role = true ∧ ∃ first ∈ msgs, first.timestamp < msg.timestamp) := by
  obtain ⟨order, same, perm⟩ : ∃ order : List RoleMsg, es.map m.disposed = order.map some ∧ order.Perm msgs := by
    have all : es.map m.disposed ∈ Set.range (List.map (some : RoleMsg → Option RoleMsg)) := by
      rw [Set.range_list_map]
      intro o member
      obtain ⟨msg, _, rfl⟩ := List.mem_map.mp (received.subset member)
      exact ⟨msg, rfl⟩
    obtain ⟨order, same⟩ := all
    refine ⟨order, same.symm, ?_⟩
    rw [← same] at received
    exact (List.map_perm_map_iff (Option.some_injective _)).mp received
  have joins' : ∀ msg ∈ order, msg.operateType = .join ∧ msg.roleAttr.getNodeId = key := fun msg member =>
    joins msg (perm.subset member)
  have distinct' : order.Pairwise fun x y => x.timestamp ≠ y.timestamp :=
    perm.symm.pairwise distinct fun apart => apart.symm
  obtain ⟨resolved, kept⟩ := resolved_run (Or.inl ⟨rfl, absent, quiet⟩) same joins' distinct'
  rw [List.nil_append] at resolved
  have own := isOwn_congr kept
  rcases resolved with ⟨none, _, silent⟩ | ⟨first, inside, earliest, present, requested⟩
  · rw [none] at perm
    rw [perm.symm.eq_nil]
    simp [silent]
  · refine ⟨?_, ?_⟩
    · intro first' inside' earliest'
      rcases earliest first' (perm.symm.subset inside') with rfl | later
      · exact present
      · exact absurd (earliest' first (perm.subset inside)) (Nat.not_le.mpr later)
    · rw [requested]
      constructor
      · rintro ⟨msg, member, later, mine⟩
        exact ⟨msg, perm.subset member, (own _) ▸ mine, first, perm.subset inside, later⟩
      · rintro ⟨msg, member, mine, other, member', later⟩
        refine ⟨msg, perm.symm.subset member, ?_, (own _).symm ▸ mine⟩
        rcases earliest msg (perm.symm.subset member) with rfl | behind
        · rcases earliest other (perm.symm.subset member') with rfl | after
          · exact absurd later (Nat.lt_irrefl _)
          · exact absurd (later.trans after) (Nat.lt_irrefl _)
        · exact behind

/-- A node of some process. -/
def nodeOf (hostName : String) (processId : Int) (nodeId : UInt64) : ServiceAttributes :=
  { ServiceAttributes.ofProcess hostName processId with nodeName := some "n", nodeId := some nodeId }

/-- The own node is the newer one, and comes first. -/
theorem duplicates_resolved_own :
    let own : Manager.Event := .join 2 (nodeOf "h" 1 7) .node
    let remote : Manager.Event := .onRemoteChange ⟨1, .join, .node, nodeOf "g" 2 7⟩
    let m := [own, remote].foldl apply (create "h" 1)
    m.nodes.lookup 7 = some ⟨nodeOf "g" 2 7, 1⟩ ∧ m.shutdownRequested = true := by
  intro own remote m
  have received : ([own, remote].map (create "h" 1).disposed).Perm
      ([⟨1, .join, .node, nodeOf "g" 2 7⟩, ⟨2, .join, .node, nodeOf "h" 1 7⟩].map some) := by
    decide
  have absent : (create "h" 1).nodes.lookup 7 = none := rfl
  have resolved := duplicates_resolved absent rfl (by decide) (by decide) received
  exact ⟨resolved.1 _ (List.mem_cons_self ..) (by decide), resolved.2.mpr (by decide)⟩

end NodeManager

end CyberRT

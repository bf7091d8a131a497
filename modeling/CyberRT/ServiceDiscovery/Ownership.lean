import CyberRT.Common.NameIds
import CyberRT.ServiceDiscovery.Registration

namespace CyberRT
open Concur

/-- The roles that a process knows of, and the ids of its names. -/
structure Topology where
  nodeManager : NodeManager
  serviceManager : ServiceManager
  globalData : GlobalData

namespace Topology

def create (hostName : String) (processId : Int) : Topology :=
  ⟨.create hostName processId, .create hostName processId, .empty⟩

inductive Event
  | node (e : Manager.Event)
  | service (e : Manager.Event)
  | hasNode (nodeName : String)
  deriving DecidableEq

def machine (hash : String → UInt64) (hostName : String) (processId : Int) : Machine Topology Event where
  init := create hostName processId
  step s
    | .node e => some { s with nodeManager := s.nodeManager.apply e }
    | .service e => some { s with serviceManager := s.serviceManager.apply e }
    | .hasNode nodeName =>
      (s.nodeManager.hasNode hash s.globalData nodeName).map fun r => { s with globalData := r.2 }

/-- What `HasNode` answers. -/
def hasNode (hash : String → UInt64) (s : Topology) (nodeName : String) : Option Bool :=
  (s.nodeManager.hasNode hash s.globalData nodeName).map fun r => r.1

def hasService (hash : String → UInt64) (s : Topology) (serviceName : String) : Bool :=
  s.serviceManager.hasService hash serviceName

/-- A leave is that of the role that is registered under its id, if one is. -/
def Owned (s : Topology) : Event → Prop
  | .node e => (s.nodeManager.effect e).Owned NodeManager.nodeId RoleNode.matchAttr s.nodeManager.nodes
  | .service e =>
    (s.serviceManager.effect e).Owned ServiceManager.serviceId RoleServer.matchAttr s.serviceManager.servers
  | .hasNode _ => True

/-- A role is removed only if it leaves itself, or its process is removed. -/
def Respects (s : Topology) : Event → Prop
  | .node e => (s.nodeManager.effect e).Respects NodeManager.nodeId RoleNode.matchAttr s.nodeManager.nodes
  | .service e =>
    (s.serviceManager.effect e).Respects ServiceManager.serviceId RoleServer.matchAttr s.serviceManager.servers
  | .hasNode _ => True

/-- The node that is registered under the id of the name leaves, or its process is removed. -/
def ReleasesNode (hash : String → UInt64) (s : Topology) (nodeName : String) : Event → Prop
  | .node e => ∃ key gd, s.globalData.registerNode hash nodeName = some (key, gd) ∧
      (s.nodeManager.effect e).Releases NodeManager.nodeId RoleNode.matchAttr s.nodeManager.nodes key
  | _ => False

def ReleasesService (hash : String → UInt64) (s : Topology) (serviceName : String) : Event → Prop
  | .service e => (s.serviceManager.effect e).Releases ServiceManager.serviceId RoleServer.matchAttr
      s.serviceManager.servers (hash serviceName)
  | _ => False

instance (s : Topology) (e : Event) : Decidable (s.Owned e) :=
  match e with
  | .node e => inferInstanceAs (Decidable ((s.nodeManager.effect e).Owned ..))
  | .service e => inferInstanceAs (Decidable ((s.serviceManager.effect e).Owned ..))
  | .hasNode _ => inferInstanceAs (Decidable True)

variable {hash : String → UInt64} {hostName : String} {processId : Int} {s s' : Topology} {e : Event} {name : String}

/-- Each role is registered under its own id. -/
structure Filed (s : Topology) : Prop where
  nodes : Effect.Filed NodeManager.nodeId s.nodeManager.nodes
  servers : Effect.Filed ServiceManager.serviceId s.serviceManager.servers

theorem reach_filed (reach : (machine hash hostName processId).Reach s) : s.Filed := by
  refine Machine.Reach.invariant ⟨Effect.filed_empty, Effect.filed_empty⟩ ?_ reach
  intro s e s' filed step
  cases e with
  | node e =>
    cases step
    exact ⟨s.nodeManager.nodes_apply e ▸ filed.nodes.apply _, filed.servers⟩
  | service e =>
    cases step
    exact ⟨filed.nodes, s.serviceManager.servers_apply e ▸ filed.servers.apply _⟩
  | hasNode nodeName =>
    obtain ⟨_, _, rfl⟩ := Option.map_eq_some_iff.mp step
    exact ⟨filed.nodes, filed.servers⟩

theorem Filed.respects_iff (filed : s.Filed) : s.Respects e ↔ s.Owned e := by
  cases e with
  | node e => exact Effect.respects_iff filed.nodes
  | service e => exact Effect.respects_iff filed.servers
  | hasNode nodeName => exact Iff.rfl

/-- The id of a name stays the same however many other names come. -/
theorem step_nodeIdMap (step : (machine hash hostName processId).step s e = some s') :
    s.globalData.nodeIdMap.Grows s'.globalData.nodeIdMap := by
  cases e with
  | node e =>
    cases step
    exact .refl _
  | service e =>
    cases step
    exact .refl _
  | hasNode nodeName =>
    obtain ⟨r, called, rfl⟩ := Option.map_eq_some_iff.mp step
    obtain ⟨⟨key, gd⟩, registered, answer⟩ := Option.bind_eq_some_iff.mp called
    cases answer
    obtain ⟨_, stored, same⟩ := Option.bind_eq_some_iff.mp registered
    cases same
    exact (IdMap.register_grows stored).1

/-- The name has got the id, and a node is registered under it. -/
structure Present (hash : String → UInt64) (name : String) (key : UInt64) (s : Topology) : Prop where
  named : ∃ before after, IdMap.register hash before name = some (key, after) ∧ after.Grows s.globalData.nodeIdMap
  registered : s.nodeManager.nodes.search key = true

theorem Present.registerNode {key : UInt64} (present : Present hash name key s) :
    ∃ gd, s.globalData.registerNode hash name = some (key, gd) := by
  obtain ⟨before, after, first, grows⟩ := present.named
  exact ⟨_, by rw [GlobalData.registerNode, IdMap.register_again first grows]; rfl⟩

theorem Present.hasNode {key : UInt64} (present : Present hash name key s) : s.hasNode hash name = some true := by
  obtain ⟨gd, again⟩ := present.registerNode
  rw [Topology.hasNode, NodeManager.hasNode, again, ← present.registered]
  rfl

/-- `HasNode` gives the name its id. -/
theorem present_of_hasNode (step : (machine hash hostName processId).step s (.hasNode name) = some s')
    (found : s.hasNode hash name = some true) : ∃ key, Present hash name key s' := by
  obtain ⟨⟨_, _⟩, called, rfl⟩ := Option.map_eq_some_iff.mp step
  rw [Topology.hasNode, called] at found
  obtain ⟨⟨key, _⟩, registered, answer⟩ := Option.bind_eq_some_iff.mp called
  cases answer
  obtain ⟨_, stored, same⟩ := Option.bind_eq_some_iff.mp registered
  cases same
  exact ⟨_, ⟨_, _, stored, .refl _⟩, Option.some.inj found⟩

theorem Present.step {key : UInt64} (present : Present hash name key s)
    (step : (machine hash hostName processId).step s e = some s') (respects : s.Respects e)
    (kept : ¬ s.ReleasesNode hash name e) : Present hash name key s' := by
  obtain ⟨before, after, first, grows⟩ := present.named
  refine ⟨⟨before, after, first, grows.trans (step_nodeIdMap step)⟩, ?_⟩
  cases e with
  | node e =>
    cases step
    by_contra gone
    rw [Bool.not_eq_true, s.nodeManager.nodes_apply e] at gone
    obtain ⟨gd, again⟩ := present.registerNode
    exact kept ⟨key, gd, again, respects key present.registered gone⟩
  | service e =>
    cases step
    exact present.registered
  | hasNode nodeName =>
    obtain ⟨_, _, rfl⟩ := Option.map_eq_some_iff.mp step
    exact present.registered

theorem hasService_step (found : s.hasService hash name = true)
    (step : (machine hash hostName processId).step s e = some s') (respects : s.Respects e)
    (kept : ¬ s.ReleasesService hash name e) : s'.hasService hash name = true := by
  cases e with
  | node e =>
    cases step
    exact found
  | service e =>
    cases step
    by_contra gone
    rw [Bool.not_eq_true, Topology.hasService, ServiceManager.hasService, s.serviceManager.servers_apply e] at gone
    exact kept (respects (hash name) found gone)
  | hasNode nodeName =>
    obtain ⟨_, _, rfl⟩ := Option.map_eq_some_iff.mp step
    exact found

section Run
variable {n : Nat} {state : Nat → Topology} {event : Nat → Event}

/-- Every role stays until it leaves or its process is removed, as long as no process takes leave of another one's
role; and then so do the answers of `HasNode` and `HasService`. -/
theorem leave_respects_ownership (run : (machine hash hostName processId).Run n state event) :
    ((∀ i, i < n → (state i).Respects (event i)) ↔ ∀ i, i < n → (state i).Owned (event i)) ∧
    ((∀ i, i < n → (state i).Owned (event i)) → ∀ (name : String) (i j : Nat), j ≤ n →
      (i < j → event i = .hasNode name → (state i).hasNode hash name = some true →
        (∀ k, i < k → k < j → ¬ (state k).ReleasesNode hash name (event k)) → (state j).hasNode hash name = some true) ∧
      (i ≤ j → (state i).hasService hash name = true →
        (∀ k, i ≤ k → k < j → ¬ (state k).ReleasesService hash name (event k)) →
        (state j).hasService hash name = true)) := by
  have respects_iff : ∀ i, i < n → ((state i).Respects (event i) ↔ (state i).Owned (event i)) := fun i bound =>
    (reach_filed (run.reach bound.le)).respects_iff
  refine ⟨forall₂_congr respects_iff, fun owned name i j bound => ⟨?_, ?_⟩⟩
  · intro before asked found kept
    obtain ⟨key, present⟩ := present_of_hasNode (asked ▸ run.next i (by omega)) found
    refine (run.stays present before bound fun k first last present step => ?_).hasNode
    exact present.step step ((respects_iff k (by omega)).mpr (owned k (by omega))) (kept k first last)
  · intro before found kept
    refine run.stays (P := fun s => s.hasService hash name = true) found before bound fun k first last found step => ?_
    exact hasService_step found step ((respects_iff k (by omega)).mpr (owned k (by omega))) (kept k first last)

end Run

/-- A server of some process. -/
def serverOf (hostName : String) (processId : Int) (serviceId : UInt64) : ServiceAttributes :=
  { ServiceAttributes.ofProcess hostName processId with serviceName := some "s", serviceId := some serviceId }

/-- A node joins, and a server that is not there leaves. -/
def oneNode : List Event :=
  [.node (.onRemoteChange ⟨1, .join, .node, NodeManager.nodeOf "g" 2 7⟩), .hasNode "n",
    .service (.onRemoteChange ⟨2, .leave, .server, serverOf "f" 3 7⟩)]

theorem leave_respects_ownership_oneNode :
    ((machine (fun _ => 7) "h" 1).stateAt oneNode 3).hasNode (fun _ => 7) "n" = some true := by
  have run := (machine (fun _ => 7) "h" 1).exec_run oneNode (by decide) (.hasNode "n")
  have owned : ∀ i, i < oneNode.length →
      ((machine (fun _ => 7) "h" 1).stateAt oneNode i).Owned (oneNode.getD i (.hasNode "n")) := by
    decide
  refine (((leave_respects_ownership run).2 owned "n" 1 3 le_rfl).1 (by omega) rfl (by decide)) fun k first last => ?_
  obtain rfl : k = 2 := by omega
  exact id

/-- The second node of an id is not registered, the second server of an id takes the place of the first one. Then the
node and the server that are not registered leave. -/
def foreignLeaves : List Event :=
  [.node (.onRemoteChange ⟨1, .join, .node, NodeManager.nodeOf "g" 2 7⟩),
    .node (.onRemoteChange ⟨2, .join, .node, NodeManager.nodeOf "f" 3 7⟩),
    .service (.onRemoteChange ⟨3, .join, .server, serverOf "g" 2 7⟩),
    .service (.onRemoteChange ⟨4, .join, .server, serverOf "f" 3 7⟩), .hasNode "n",
    .node (.onRemoteChange ⟨5, .leave, .node, NodeManager.nodeOf "f" 3 7⟩),
    .service (.onRemoteChange ⟨6, .leave, .server, serverOf "g" 2 7⟩)]

theorem foreign_leave_removes :
    let M := machine (fun _ => 7) "h" 1
    let state := M.stateAt foreignLeaves
    let event := fun i => foreignLeaves.getD i (.hasNode "n")
    M.Run 7 state event ∧
    ((state 5).nodeManager.nodes.lookup 7 = some ⟨NodeManager.nodeOf "g" 2 7, 1⟩ ∧
      (state 5).hasNode (fun _ => 7) "n" = some true ∧ ¬ (state 5).Respects (event 5) ∧
      (state 6).hasNode (fun _ => 7) "n" = some false) ∧
    ((state 6).serviceManager.servers.lookup 7 = some ⟨serverOf "f" 3 7, 0⟩ ∧
      (state 6).hasService (fun _ => 7) "s" = true ∧ ¬ (state 6).Respects (event 6) ∧
      (state 7).hasService (fun _ => 7) "s" = false) := by
  intro M state event
  have run : M.Run 7 state event := M.exec_run foreignLeaves (by decide) (.hasNode "n")
  have node := (reach_filed (run.reach (by omega : 5 ≤ 7))).respects_iff (e := event 5)
  have service := (reach_filed (run.reach (by omega : 6 ≤ 7))).respects_iff (e := event 6)
  refine ⟨run, ⟨by decide, by decide, ?_, by decide⟩, ⟨by decide, by decide, ?_, by decide⟩⟩
  · rw [node]
    decide
  · rw [service]
    decide

end Topology

end CyberRT

import CyberRT.ServiceDiscovery.DuplicateNodes
import CyberRT.ServiceDiscovery.ServiceManager

namespace CyberRT
open Concur

/-- What an event does to the roles that are registered under their ids. -/
inductive Effect
  | stays
  | registers (role : Role) (replaces : Bool)
  | leaves (attr : ServiceAttributes)
  | purges (hostName : String) (processId : Int)

namespace Effect
variable (id : ServiceAttributes → UInt64) (matchAttr : ServiceAttributes → ServiceAttributes → Bool)

def apply (w : SingleValueWarehouse) : Effect → SingleValueWarehouse
  | stays => w
  | registers role replaces =>
    if replaces || (w.lookup (id role.attributes)).isNone then w.insert (id role.attributes) role else w
  | leaves attr => w.remove (id attr)
  | purges hostName processId =>
    (w.searchAttr matchAttr (.ofProcess hostName processId)).foldl (fun w role => w.remove (id role.attributes)) w

/-- Each role is registered under its own id. -/
def Filed (w : SingleValueWarehouse) : Prop :=
  ∀ key role, w.lookup key = some role → id role.attributes = key

/-- A leave is that of the role that is registered under the id, if one is. -/
def Owned (w : SingleValueWarehouse) : Effect → Prop
  | leaves attr => ∀ role ∈ w.lookup (id attr), matchAttr role.attributes attr = true
  | _ => True

/-- The role that is registered under the key leaves itself, or its process is removed. -/
def Releases (w : SingleValueWarehouse) (key : UInt64) : Effect → Prop
  | leaves attr => id attr = key ∧ ∃ role ∈ w.lookup key, matchAttr role.attributes attr = true
  | purges hostName processId => ∃ role ∈ w.lookup key, matchAttr role.attributes (.ofProcess hostName processId) = true
  | _ => False

/-- A role is removed only if it leaves itself, or its process is removed. -/
def Respects (w : SingleValueWarehouse) (e : Effect) : Prop :=
  ∀ key, w.search key = true → (e.apply id matchAttr w).search key = false → e.Releases id matchAttr w key

instance (w : SingleValueWarehouse) (e : Effect) : Decidable (e.Owned id matchAttr w) :=
  match e with
  | leaves attr => inferInstanceAs (Decidable (∀ role ∈ w.lookup (id attr), matchAttr role.attributes attr = true))
  | stays | registers _ _ | purges _ _ => inferInstanceAs (Decidable True)

variable {id matchAttr} {w : SingleValueWarehouse} {e : Effect}

theorem lookup_foldl_remove (w : SingleValueWarehouse) (roles : List Role) (key : UInt64) :
    (roles.foldl (fun w role => w.remove (id role.attributes)) w).lookup key =
      if key ∈ roles.map fun role => id role.attributes then none else w.lookup key := by
  induction roles generalizing w with
  | nil => rfl
  | cons role roles ih =>
    rw [List.foldl_cons, ih, SingleValueWarehouse.remove, Table.lookup_erase_eq, List.map_cons]
    by_cases later : key ∈ roles.map fun role => id role.attributes
    · rw [if_pos later, if_pos (List.mem_cons_of_mem _ later)]
    · by_cases now : key = id role.attributes
      · rw [if_neg later, if_pos now, if_pos (now ▸ List.mem_cons_self ..)]
      · rw [if_neg later, if_neg now, if_neg (by simp [now, later])]

/-- A role that is removed with its process is one that is registered. -/
theorem mem_searchAttr {role : Role} {target : ServiceAttributes} :
    role ∈ w.searchAttr matchAttr target ↔
      (∃ key, w.lookup key = some role) ∧ matchAttr role.attributes target = true := by
  simp only [SingleValueWarehouse.searchAttr, List.mem_filter, List.mem_map]
  constructor
  · rintro ⟨⟨⟨key, role'⟩, member, rfl⟩, hit⟩
    exact ⟨⟨key, Table.mem_entries_iff.mp member⟩, hit⟩
  · rintro ⟨⟨key, found⟩, hit⟩
    exact ⟨⟨⟨key, role⟩, Table.mem_entries_iff.mpr found, rfl⟩, hit⟩

theorem filed_empty : Filed id ∅ := by
  intro key role found
  cases found

theorem Filed.apply (filed : Filed id w) (e : Effect) : Filed id (e.apply id matchAttr w) := by
  intro key role found
  cases e with
  | stays => exact filed key role found
  | registers new replaces =>
    simp only [Effect.apply] at found
    split at found
    · rw [Table.lookup_insert_eq] at found
      split at found
      · rename_i here
        cases found
        exact here.symm
      · exact filed key role found
    · exact filed key role found
  | leaves attr =>
    simp only [Effect.apply, SingleValueWarehouse.remove, Table.lookup_erase_eq] at found
    split at found
    · cases found
    · exact filed key role found
  | purges hostName processId =>
    simp only [Effect.apply, lookup_foldl_remove] at found
    split at found
    · cases found
    · exact filed key role found

/-- The leave of another role than the registered one is exactly what takes a role away that has not left. -/
theorem respects_iff (filed : Filed id w) : e.Respects id matchAttr w ↔ e.Owned id matchAttr w := by
  cases e with
  | stays =>
    refine iff_of_true (fun key here gone => ?_) trivial
    rw [show (stays.apply id matchAttr w).search key = true from here] at gone
    cases gone
  | registers role replaces =>
    refine iff_of_true (fun key here gone => ?_) trivial
    simp only [Effect.apply, SingleValueWarehouse.search] at here gone
    split at gone
    · rw [Table.lookup_insert_eq] at gone
      split at gone
      · cases gone
      · rw [here] at gone
        cases gone
    · rw [here] at gone
      cases gone
  | leaves attr =>
    have erased : ∀ key, ((leaves attr).apply id matchAttr w).lookup key =
        if key = id attr then none else w.lookup key := fun key => Table.lookup_erase_eq w (id attr) key
    constructor
    · intro respects role found
      have here : w.search (id attr) = true := by
        rw [SingleValueWarehouse.search, found]
        rfl
      have gone : ((leaves attr).apply id matchAttr w).search (id attr) = false := by
        rw [SingleValueWarehouse.search, erased, if_pos rfl]
        rfl
      obtain ⟨_, other, found', hit⟩ := respects (id attr) here gone
      cases Option.some.inj (found.symm.trans found')
      exact hit
    · intro owned key here gone
      rw [SingleValueWarehouse.search, erased] at gone
      split at gone
      · rename_i same
        subst same
        obtain ⟨role, found⟩ := Option.isSome_iff_exists.mp here
        exact ⟨rfl, role, found, owned role found⟩
      · rw [show (w.lookup key).isSome = true from here] at gone
        cases gone
  | purges hostName processId =>
    refine iff_of_true (fun key here gone => ?_) trivial
    simp only [Effect.apply, SingleValueWarehouse.search, lookup_foldl_remove] at gone
    split at gone
    · rename_i among
      obtain ⟨role, removed, rfl⟩ := List.mem_map.mp among
      obtain ⟨⟨key, found⟩, hit⟩ := mem_searchAttr.mp removed
      exact ⟨role, (filed key role found).symm ▸ found, hit⟩
    · rw [show (w.lookup key).isSome = true from here] at gone
      cases gone

end Effect

namespace NodeManager
variable {m : NodeManager}

def nodeId (attr : ServiceAttributes) : UInt64 :=
  attr.getNodeId

/-- What an event does to the nodes: a node replaces one that is not earlier. -/
def effect (m : NodeManager) : Manager.Event → Effect
  | .onTopoModuleLeave hostName processId => if m.isDiscoveryStarted then .purges hostName processId else .stays
  | e =>
    match m.disposed e with
    | none => .stays
    | some msg =>
      if msg.operateType = .join then
        .registers msg.role ((m.nodes.lookup msg.roleAttr.getNodeId).all fun existing => msg.role.isEarlierThan existing)
      else .leaves msg.roleAttr

theorem nodes_apply (m : NodeManager) (e : Manager.Event) :
    (m.apply e).nodes = (m.effect e).apply nodeId RoleNode.matchAttr m.nodes := by
  have dispose : ∀ msg : RoleMsg, (m.dispose msg).nodes = Effect.apply nodeId RoleNode.matchAttr m.nodes
      (if msg.operateType = .join then .registers msg.role
        ((m.nodes.lookup msg.roleAttr.getNodeId).all fun existing => msg.role.isEarlierThan existing)
      else .leaves msg.roleAttr) := by
    intro msg
    unfold NodeManager.dispose
    split
    · cases present : m.nodes.lookup msg.roleAttr.getNodeId with
      | none => simp [disposeJoin_absent present, Effect.apply, nodeId, RoleMsg.role, present]
      | some existing =>
        by_cases earlier : msg.timestamp < existing.timestampNs <;>
          simp [disposeJoin_present present, Effect.apply, nodeId, RoleMsg.role, present, Role.isEarlierThan, earlier]
    · rfl
  cases e with
  | onTopoModuleLeave hostName processId =>
    simp only [apply, onTopoModuleLeave, effect]
    cases m.isDiscoveryStarted <;> rfl
  | startDiscovery created => rfl
  | stopDiscovery => rfl
  | shutdown => rfl
  | join | leave | onRemoteChange =>
    simp only [apply, effect]
    split
    · rename_i ignored
      rw [ignored]
      rfl
    · rename_i msg received
      rw [received]
      exact dispose msg

end NodeManager

namespace ServiceManager
variable {m : ServiceManager}

def serviceId (attr : ServiceAttributes) : UInt64 :=
  attr.getServiceId

/-- What an event does to the servers. -/
def effect (m : ServiceManager) : Manager.Event → Effect
  | .onTopoModuleLeave hostName processId => if m.isDiscoveryStarted then .purges hostName processId else .stays
  | e =>
    match m.disposed e with
    | none => .stays
    | some msg =>
      if msg.roleType = .server then
        if msg.operateType = .join then .registers ⟨msg.roleAttr, 0⟩ true else .leaves msg.roleAttr
      else .stays

theorem servers_apply (m : ServiceManager) (e : Manager.Event) :
    (m.apply e).servers = (m.effect e).apply serviceId RoleServer.matchAttr m.servers := by
  have dispose : ∀ msg : RoleMsg, (m.dispose msg).servers = Effect.apply serviceId RoleServer.matchAttr m.servers
      (if msg.roleType = .server then
        if msg.operateType = .join then .registers ⟨msg.roleAttr, 0⟩ true else .leaves msg.roleAttr
      else .stays) := by
    intro msg
    unfold ServiceManager.dispose disposeJoin disposeLeave
    by_cases server : msg.roleType = .server <;> by_cases join : msg.operateType = .join <;>
      simp [server, join, Effect.apply, SingleValueWarehouse.add, serviceId]
  cases e with
  | onTopoModuleLeave hostName processId =>
    simp only [apply, onTopoModuleLeave, effect]
    cases m.isDiscoveryStarted <;> rfl
  | startDiscovery created => rfl
  | stopDiscovery => rfl
  | shutdown => rfl
  | join | leave | onRemoteChange =>
    simp only [apply, effect]
    split
    · rename_i ignored
      rw [ignored]
      rfl
    · rename_i msg received
      rw [received]
      exact dispose msg

end ServiceManager

end CyberRT

import CyberRT.Common.Proto

namespace CyberRT

/-- Every field that the target sets has the role's value. -/
def RoleBase.matchAttr (attributes target : RoleAttributes) : Bool :=
  if target.nodeId.isSome && target.getNodeId != attributes.getNodeId then false
  else if target.processId.isSome && target.getProcessId != attributes.getProcessId then false
  else if target.hostName.isSome && target.getHostName != attributes.getHostName then false
  else true

/-- Readers are matched as writers are. -/
def RoleWriter.matchAttr (attributes target : RoleAttributes) : Bool :=
  if target.channelId.isSome && target.getChannelId != attributes.getChannelId then false
  else if target.id.isSome && target.getId != attributes.getId then false
  else RoleBase.matchAttr attributes target

theorem RoleWriter.matchAttr_iff {attributes target : RoleAttributes} :
    RoleWriter.matchAttr attributes target = true ↔
      (target.channelId.isSome → target.getChannelId = attributes.getChannelId) ∧
      (target.id.isSome → target.getId = attributes.getId) ∧
      (target.nodeId.isSome → target.getNodeId = attributes.getNodeId) ∧
      (target.processId.isSome → target.getProcessId = attributes.getProcessId) ∧
      (target.hostName.isSome → target.getHostName = attributes.getHostName) := by
  unfold RoleWriter.matchAttr RoleBase.matchAttr
  simp only [Bool.if_false_left, Bool.and_eq_true, Bool.not_eq_true', decide_eq_false_iff_not, bne_iff_ne,
    ne_eq, not_and, Decidable.not_not, Bool.and_true]

/-- A multimap of roles. A role is filed under a key, an id of its node or of its channel. -/
abbrev MultiValueWarehouse := List (UInt64 × RoleAttributes)

namespace MultiValueWarehouse

def add (w : MultiValueWarehouse) (key : UInt64) (role : RoleAttributes) : MultiValueWarehouse :=
  w ++ [(key, role)]

/-- Remove the roles under `key` that match `role`. -/
def remove (w : MultiValueWarehouse) (key : UInt64) (role : RoleAttributes) : MultiValueWarehouse :=
  w.filter fun item => !(item.1 == key && RoleWriter.matchAttr item.2 role)

/-- `Search` by key. -/
def search (w : MultiValueWarehouse) (key : UInt64) : List RoleAttributes :=
  (w.filter fun item => item.1 == key).map fun item => item.2

/-- `Search` by attributes. -/
def searchAttr (w : MultiValueWarehouse) (target : RoleAttributes) : List RoleAttributes :=
  (w.filter fun item => RoleWriter.matchAttr item.2 target).map fun item => item.2

/-- The roles, whatever their keys. -/
def roles (w : MultiValueWarehouse) : List RoleAttributes :=
  w.map fun item => item.2

/-- Each role is filed under its own value of `key`. -/
def Filed (w : MultiValueWarehouse) (key : RoleAttributes → UInt64) : Prop :=
  ∀ item ∈ w, item.1 = key item.2

variable {w : MultiValueWarehouse} {key : RoleAttributes → UInt64}

theorem Filed.add (filed : w.Filed key) (role : RoleAttributes) : (w.add (key role) role).Filed key := by
  intro item member
  rcases List.mem_append.mp member with old | new
  · exact filed item old
  · rw [List.mem_singleton.mp new]

theorem Filed.remove (filed : w.Filed key) (k : UInt64) (role : RoleAttributes) :
    (w.remove k role).Filed key :=
  fun item member => filed item (List.mem_filter.mp member).1

theorem roles_add (w : MultiValueWarehouse) (k : UInt64) (role : RoleAttributes) :
    (w.add k role).roles = w.roles ++ [role] := by
  simp [roles, MultiValueWarehouse.add]

/-- A key that every matching role is filed under does not narrow a removal. -/
theorem Filed.roles_remove (filed : w.Filed key) {role : RoleAttributes}
    (implied : ∀ r, RoleWriter.matchAttr r role = true → key r = key role) :
    (w.remove (key role) role).roles = w.roles.filter fun r => !RoleWriter.matchAttr r role := by
  unfold roles MultiValueWarehouse.remove
  rw [List.filter_map]
  congr 1
  refine List.filter_congr fun item member => ?_
  by_cases hit : RoleWriter.matchAttr item.2 role = true
  · simp [hit, filed item member, implied item.2 hit]
  · simp [hit]

theorem Filed.mem_search (filed : w.Filed key) {k : UInt64} {role : RoleAttributes} :
    role ∈ w.search k ↔ role ∈ w.roles ∧ key role = k := by
  simp only [search, roles, List.mem_map, List.mem_filter, beq_iff_eq]
  constructor
  · rintro ⟨item, ⟨member, atKey⟩, rfl⟩
    exact ⟨⟨item, member, rfl⟩, (filed item member).symm.trans atKey⟩
  · rintro ⟨⟨item, member, rfl⟩, atKey⟩
    exact ⟨item, ⟨member, (filed item member).trans atKey⟩, rfl⟩

theorem mem_searchAttr {target role : RoleAttributes} :
    role ∈ w.searchAttr target ↔ role ∈ w.roles ∧ RoleWriter.matchAttr role target = true := by
  simp only [searchAttr, roles, List.mem_map, List.mem_filter]
  constructor
  · rintro ⟨item, ⟨member, hit⟩, rfl⟩
    exact ⟨⟨item, member, rfl⟩, hit⟩
  · rintro ⟨⟨item, member, rfl⟩, hit⟩
    exact ⟨item, ⟨member, hit⟩, rfl⟩

end MultiValueWarehouse

end CyberRT

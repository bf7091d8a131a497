import CyberRT.Transport.HybridTransmitter

namespace CyberRT
open Concur

/-- A receiver that listens through one underlying receiver for each mode in use. Of an underlying receiver the ids are
kept for which it is enabled, each as often as it is. -/
structure HybridReceiver where
  attr : RoleAttributes
  mode : CommunicationMode
  receivers : Table OptionalMode (List UInt64)
  transmitters : Table OptionalMode (Table UInt64 RoleAttributes)

namespace HybridReceiver

/-- `InitReceivers` and `InitTransmitters` make an entry for every mode of the configuration. -/
def init (attr : RoleAttributes) (mode : CommunicationMode) : HybridReceiver where
  attr := attr
  mode := mode
  receivers := ((AList.singleton mode.sameProc []).insert mode.diffProc []).insert mode.diffHost []
  transmitters := ((AList.singleton mode.sameProc ∅).insert mode.diffProc ∅).insert mode.diffHost ∅

def getRelation (r : HybridReceiver) (oppositeAttr : RoleAttributes) : Relation :=
  if oppositeAttr.getChannelName ≠ r.attr.getChannelName then .noRelation
  else if oppositeAttr.getHostIp ≠ r.attr.getHostIp then .diffHost
  else if oppositeAttr.getProcessId ≠ r.attr.getProcessId then .diffProc
  else .sameProc

/-- `mapping_table_`, and no mode for writers without a relation. -/
def mappedMode (r : HybridReceiver) (oppositeAttr : RoleAttributes) : Option OptionalMode :=
  match r.getRelation oppositeAttr with
  | .noRelation => none
  | .diffHost => some r.mode.diffHost
  | .diffProc => some r.mode.diffProc
  | .sameProc => some r.mode.sameProc

/-- The messages of the writer's history are received by a thread of their own. -/
def enable (r : HybridReceiver) (oppositeAttr : RoleAttributes) : HybridReceiver :=
  match r.mappedMode oppositeAttr with
  | none => r
  | some m =>
    let id := oppositeAttr.getId
    if id ∈ r.transmitters.get m then r
    else
      { r with transmitters := r.transmitters.insert m ((r.transmitters.get m).insert id oppositeAttr)
               receivers := r.receivers.insert m (r.receivers.get m ++ [id]) }

def disable (r : HybridReceiver) (oppositeAttr : RoleAttributes) : HybridReceiver :=
  match r.mappedMode oppositeAttr with
  | none => r
  | some m =>
    let id := oppositeAttr.getId
    if id ∈ r.transmitters.get m then
      { r with transmitters := r.transmitters.insert m ((r.transmitters.get m).erase id)
               receivers := r.receivers.insert m ((r.receivers.get m).erase id) }
    else r

/-- A writer is in the table of its mode. -/
def Knows (r : HybridReceiver) (oppositeAttr : RoleAttributes) : Prop :=
  ∃ m, r.mappedMode oppositeAttr = some m ∧ oppositeAttr.getId ∈ r.transmitters.get m

/-- The tables hold writers with their own ids, each under the mode of its relation, and the underlying receiver of a
mode is enabled once for each writer in its table. -/
structure Sound (writers : UInt64 → RoleAttributes) (r : HybridReceiver) : Prop where
  mapped : ∀ m id attr, (r.transmitters.get m).lookup id = some attr →
    attr = writers id ∧ r.mappedMode (writers id) = some m
  enabled : ∀ m id, id ∈ r.receivers.get m ↔ id ∈ r.transmitters.get m
  once : ∀ m, (r.receivers.get m).Nodup

variable {writers : UInt64 → RoleAttributes} {r : HybridReceiver} {id : UInt64}

/-- Only writers of the receiver's own channel have a mode. -/
theorem mappedMode_isSome {oppositeAttr : RoleAttributes} :
    (r.mappedMode oppositeAttr).isSome = true ↔ oppositeAttr.getChannelName = r.attr.getChannelName := by
  by_cases same : oppositeAttr.getChannelName = r.attr.getChannelName
  · refine iff_of_true ?_ same
    by_cases host : oppositeAttr.getHostIp = r.attr.getHostIp <;>
      by_cases process : oppositeAttr.getProcessId = r.attr.getProcessId <;>
      simp [mappedMode, getRelation, same, host, process]
  · refine iff_of_false ?_ same
    simp [mappedMode, getRelation, same]

theorem enable_frame (r : HybridReceiver) (oppositeAttr : RoleAttributes) :
    (r.enable oppositeAttr).attr = r.attr ∧ (r.enable oppositeAttr).mode = r.mode := by
  unfold enable
  split
  · exact ⟨rfl, rfl⟩
  · dsimp only
    split <;> exact ⟨rfl, rfl⟩

theorem disable_frame (r : HybridReceiver) (oppositeAttr : RoleAttributes) :
    (r.disable oppositeAttr).attr = r.attr ∧ (r.disable oppositeAttr).mode = r.mode := by
  unfold disable
  split
  · exact ⟨rfl, rfl⟩
  · dsimp only
    split <;> exact ⟨rfl, rfl⟩

theorem transmitters_init (attr : RoleAttributes) (mode : CommunicationMode) (m : OptionalMode) :
    Table.get (init attr mode).transmitters m = ∅ := by
  simp only [init, ← AList.insert_empty, Table.get_insert_eq, Table.get_empty]
  split <;> try split <;> try split
  all_goals rfl

theorem not_knows_init (attr oppositeAttr : RoleAttributes) (mode : CommunicationMode) :
    ¬ (init attr mode).Knows oppositeAttr := by
  rintro ⟨m, -, known⟩
  rw [transmitters_init] at known
  exact AList.notMem_empty _ known

theorem sound_init (attr : RoleAttributes) (mode : CommunicationMode) : (init attr mode).Sound writers := by
  have tables := transmitters_init attr mode
  have receivers : ∀ m, Table.get (init attr mode).receivers m = [] := by
    intro m
    simp only [init, ← AList.insert_empty, Table.get_insert_eq, Table.get_empty]
    split <;> try split <;> try split
    all_goals rfl
  refine ⟨fun m id attr found => ?_, fun m id => ?_, fun m => ?_⟩
  · rw [tables] at found
    cases found
  · rw [tables, receivers]
    exact iff_of_false List.not_mem_nil (AList.notMem_empty id)
  · rw [receivers]
    exact List.nodup_nil

section Writers
variable (ids : ∀ id, (writers id).getId = id)
include ids

theorem knows_iff {m : OptionalMode} (mapped : r.mappedMode (writers id) = some m) :
    r.Knows (writers id) ↔ id ∈ r.transmitters.get m := by
  rw [Knows, ids]
  constructor
  · rintro ⟨m', mapped', member⟩
    cases mapped.symm.trans mapped'
    exact member
  · exact fun member => ⟨m, mapped, member⟩

/-- The table of one mode and its underlying receiver are replaced; the writers of the other modes stay as they are. -/
theorem Sound.replace (sound : r.Sound writers) {m : OptionalMode} (mapped : r.mappedMode (writers id) = some m)
    {table : Table UInt64 RoleAttributes} {receiver : List UInt64} {r' : HybridReceiver}
    (shape : r' = { r with transmitters := r.transmitters.insert m table
                           receivers := r.receivers.insert m receiver })
    (own : ∀ id' attr, table.lookup id' = some attr →
      id' = id ∧ attr = writers id ∨ (r.transmitters.get m).lookup id' = some attr)
    (enabled : ∀ id', id' ∈ receiver ↔ id' ∈ table) (once : receiver.Nodup) :
    r'.Sound writers ∧
      ∀ id', r'.Knows (writers id') ↔
        if r.mappedMode (writers id') = some m then id' ∈ table else r.Knows (writers id') := by
  have same : r'.mappedMode = r.mappedMode := by
    rw [shape]
    rfl
  have tables : ∀ m', r'.transmitters.get m' = if m' = m then table else r.transmitters.get m' := by
    intro m'
    rw [shape, Table.get_insert_eq]
  have receivers : ∀ m', r'.receivers.get m' = if m' = m then receiver else r.receivers.get m' := by
    intro m'
    rw [shape, Table.get_insert_eq]
  refine ⟨⟨fun m' id' attr found => ?_, fun m' id' => ?_, fun m' => ?_⟩, fun id' => ?_⟩
  · rw [same]
    rw [tables] at found
    split at found
    · rename_i here
      rcases own id' attr found with ⟨rfl, new⟩ | old
      · exact ⟨new, here ▸ mapped⟩
      · exact sound.mapped m' id' attr (here ▸ old)
    · exact sound.mapped m' id' attr found
  · rw [tables, receivers]
    split
    · exact enabled id'
    · exact sound.enabled m' id'
  · rw [receivers]
    split
    · exact once
    · exact sound.once m'
  · split
    · rename_i here
      rw [knows_iff ids (same ▸ here), tables, if_pos rfl]
    · rename_i elsewhere
      simp only [Knows, same, ids, tables]
      refine exists_congr fun m' => and_congr_right fun mapped' => ?_
      rw [if_neg]
      rintro rfl
      exact elsewhere mapped'

/-- `Enable` puts the writer into its table, and no other. -/
theorem Sound.enable (sound : r.Sound writers) (channel : (writers id).getChannelName = r.attr.getChannelName) :
    (r.enable (writers id)).Sound writers ∧
      ∀ id', (r.enable (writers id)).Knows (writers id') ↔ id' = id ∨ r.Knows (writers id') := by
  obtain ⟨m, mapped⟩ := Option.isSome_iff_exists.mp (mappedMode_isSome.mpr channel)
  have known := knows_iff ids mapped
  by_cases member : id ∈ r.transmitters.get m
  · have unchanged : r.enable (writers id) = r := by simp only [HybridReceiver.enable, mapped, ids, member, if_true]
    rw [unchanged]
    refine ⟨sound, fun id' => ⟨Or.inr, fun either => either.elim (fun new => ?_) fun old => old⟩⟩
    rw [new]
    exact known.mpr member
  · have shape : r.enable (writers id) =
        { r with transmitters := r.transmitters.insert m ((r.transmitters.get m).insert id (writers id))
                 receivers := r.receivers.insert m (r.receivers.get m ++ [id]) } := by
      simp only [HybridReceiver.enable, mapped, ids, member, if_false]
    have own : ∀ id' attr, ((r.transmitters.get m).insert id (writers id)).lookup id' = some attr →
        id' = id ∧ attr = writers id ∨ (r.transmitters.get m).lookup id' = some attr := by
      intro id' attr found
      rw [Table.lookup_insert_eq] at found
      split at found
      · rename_i own
        exact Or.inl ⟨own, (Option.some.inj found).symm⟩
      · exact Or.inr found
    have enabled : ∀ id', id' ∈ r.receivers.get m ++ [id] ↔ id' ∈ (r.transmitters.get m).insert id (writers id) := by
      intro id'
      rw [List.mem_append, List.mem_singleton, AList.mem_insert, sound.enabled, or_comm]
    have once : (r.receivers.get m ++ [id]).Nodup := by
      refine List.nodup_append'.mpr ⟨sound.once m, List.nodup_singleton id, ?_⟩
      intro id' old new
      rw [List.mem_singleton.mp new] at old
      exact member ((sound.enabled m id).mp old)
    obtain ⟨after, knows⟩ := sound.replace ids mapped shape own enabled once
    refine ⟨after, fun id' => (knows id').trans ?_⟩
    split
    · rename_i here
      rw [AList.mem_insert, knows_iff ids here]
    · rename_i elsewhere
      exact ⟨Or.inr, fun either => either.resolve_left fun same => elsewhere (same ▸ mapped)⟩

/-- `Disable` takes the writer out of its table, and no other. -/
theorem Sound.disable (sound : r.Sound writers) (channel : (writers id).getChannelName = r.attr.getChannelName) :
    (r.disable (writers id)).Sound writers ∧
      ∀ id', (r.disable (writers id)).Knows (writers id') ↔ id' ≠ id ∧ r.Knows (writers id') := by
  obtain ⟨m, mapped⟩ := Option.isSome_iff_exists.mp (mappedMode_isSome.mpr channel)
  have known := knows_iff ids mapped
  by_cases member : id ∈ r.transmitters.get m
  · have shape : r.disable (writers id) =
        { r with transmitters := r.transmitters.insert m ((r.transmitters.get m).erase id)
                 receivers := r.receivers.insert m ((r.receivers.get m).erase id) } := by
      simp only [HybridReceiver.disable, mapped, ids, member, if_true]
    have own : ∀ id' attr, ((r.transmitters.get m).erase id).lookup id' = some attr →
        id' = id ∧ attr = writers id ∨ (r.transmitters.get m).lookup id' = some attr := by
      intro id' attr found
      rw [Table.lookup_erase_eq] at found
      split at found
      · cases found
      · exact Or.inr found
    have enabled : ∀ id', id' ∈ (r.receivers.get m).erase id ↔ id' ∈ (r.transmitters.get m).erase id := by
      intro id'
      rw [(sound.once m).mem_erase_iff, AList.mem_erase, sound.enabled]
    obtain ⟨after, knows⟩ := sound.replace ids mapped shape own enabled ((sound.once m).erase id)
    refine ⟨after, fun id' => (knows id').trans ?_⟩
    split
    · rename_i here
      rw [AList.mem_erase, knows_iff ids here]
    · rename_i elsewhere
      exact ⟨fun knows => ⟨fun same => elsewhere (same ▸ mapped), knows⟩, And.right⟩
  · have unchanged : r.disable (writers id) = r := by
      simp only [HybridReceiver.disable, mapped, ids, member, if_false]
    rw [unchanged]
    refine ⟨sound, fun id' => ⟨fun knows => ⟨?_, knows⟩, And.right⟩⟩
    rintro rfl
    exact member (known.mp knows)

end Writers

end HybridReceiver

end CyberRT

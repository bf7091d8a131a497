import CyberRT.Common.Proto
import CyberRT.Lib.Table
import Mathlib.Data.Finset.Basic

namespace CyberRT
open Concur

inductive OptionalMode
  | hybrid
  | intra
  | shm
  | rtps
  deriving DecidableEq

inductive Relation
  | noRelation
  | diffHost
  | diffProc
  | sameProc
  deriving DecidableEq

/-- The modes that the configuration gives to readers near and far. -/
structure CommunicationMode where
  sameProc : OptionalMode
  diffProc : OptionalMode
  diffHost : OptionalMode

/-- The configuration if none is set. -/
def CommunicationMode.default : CommunicationMode :=
  ⟨.intra, .shm, .rtps⟩

/-- A transmitter that sends through one underlying transmitter for each mode in use. Of an underlying
transmitter the flag `enabled_` is kept. -/
structure HybridTransmitter where
  attr : RoleAttributes
  mode : CommunicationMode
  transmitters : Table OptionalMode Bool
  receivers : Table OptionalMode (Finset UInt64)

namespace HybridTransmitter

/-- `InitTransmitters` and `InitReceivers` make an entry for every mode of the configuration. -/
def init (attr : RoleAttributes) (mode : CommunicationMode) : HybridTransmitter where
  attr := attr
  mode := mode
  transmitters := ((AList.singleton mode.sameProc false).insert mode.diffProc false).insert mode.diffHost false
  receivers := ((AList.singleton mode.sameProc ∅).insert mode.diffProc ∅).insert mode.diffHost ∅

def getRelation (t : HybridTransmitter) (oppositeAttr : RoleAttributes) : Relation :=
  if oppositeAttr.getChannelName ≠ t.attr.getChannelName then .noRelation
  else if oppositeAttr.getHostIp ≠ t.attr.getHostIp then .diffHost
  else if oppositeAttr.getProcessId ≠ t.attr.getProcessId then .diffProc
  else .sameProc

/-- `mapping_table_`, and no mode for readers without a relation. -/
def mappedMode (t : HybridTransmitter) (oppositeAttr : RoleAttributes) : Option OptionalMode :=
  match t.getRelation oppositeAttr with
  | .noRelation => none
  | .diffHost => some t.mode.diffHost
  | .diffProc => some t.mode.diffProc
  | .sameProc => some t.mode.sameProc

/-- `Enable` of the underlying transmitter of a mode. The one for RTPS stays as it is if its publisher
cannot be created. -/
def enableMode (m : OptionalMode) (enabled created : Bool) : Bool :=
  if enabled then true
  else match m with
    | .intra | .shm => true
    | .hybrid | .rtps => created

def enable (t : HybridTransmitter) (oppositeAttr : RoleAttributes) (created : Bool) : HybridTransmitter :=
  match t.mappedMode oppositeAttr with
  | none => t
  | some m =>
    { t with receivers := t.receivers.insert m (insert oppositeAttr.getId (t.receivers.get m))
             transmitters := t.transmitters.insert m (enableMode m (t.transmitters.get m) created) }

def disable (t : HybridTransmitter) (oppositeAttr : RoleAttributes) : HybridTransmitter :=
  match t.mappedMode oppositeAttr with
  | none => t
  | some m =>
    let rest := (t.receivers.get m).erase oppositeAttr.getId
    let t := { t with receivers := t.receivers.insert m rest }
    if rest = ∅ then { t with transmitters := t.transmitters.insert m false } else t

theorem enable_attr (t : HybridTransmitter) (oppositeAttr : RoleAttributes) (created : Bool) :
    (t.enable oppositeAttr created).attr = t.attr := by
  unfold enable
  split <;> rfl

theorem disable_attr (t : HybridTransmitter) (oppositeAttr : RoleAttributes) :
    (t.disable oppositeAttr).attr = t.attr := by
  unfold disable
  split
  · rfl
  · dsimp only
    split <;> rfl

/-- Only readers of the transmitter's own channel have a mode. -/
theorem channel_of_mappedMode {t : HybridTransmitter} {oppositeAttr : RoleAttributes} {m : OptionalMode}
    (mapped : t.mappedMode oppositeAttr = some m) : oppositeAttr.getChannelName = t.attr.getChannelName := by
  by_contra other
  simp only [mappedMode, getRelation, ne_eq, other, not_false_eq_true, if_true] at mapped
  cases mapped

theorem enable_mappedMode (t : HybridTransmitter) (oppositeAttr : RoleAttributes) (created : Bool) :
    (t.enable oppositeAttr created).mappedMode = t.mappedMode := by
  unfold enable
  split <;> rfl

theorem disable_mappedMode (t : HybridTransmitter) (oppositeAttr : RoleAttributes) :
    (t.disable oppositeAttr).mappedMode = t.mappedMode := by
  unfold disable
  split
  · rfl
  · dsimp only
    split <;> rfl

theorem enable_receivers {t : HybridTransmitter} {oppositeAttr : RoleAttributes} {m : OptionalMode}
    (mapped : t.mappedMode oppositeAttr = some m) (created : Bool) (m' : OptionalMode) :
    (t.enable oppositeAttr created).receivers.get m' =
      if m' = m then insert oppositeAttr.getId (t.receivers.get m) else t.receivers.get m' := by
  simp only [enable, mapped, Table.get_insert_eq]

theorem enable_transmitters {t : HybridTransmitter} {oppositeAttr : RoleAttributes} {m : OptionalMode}
    (mapped : t.mappedMode oppositeAttr = some m) (created : Bool) (m' : OptionalMode) :
    (t.enable oppositeAttr created).transmitters.get m' =
      if m' = m then enableMode m (t.transmitters.get m) created else t.transmitters.get m' := by
  simp only [enable, mapped, Table.get_insert_eq]

theorem disable_receivers {t : HybridTransmitter} {oppositeAttr : RoleAttributes} {m : OptionalMode}
    (mapped : t.mappedMode oppositeAttr = some m) (m' : OptionalMode) :
    (t.disable oppositeAttr).receivers.get m' =
      if m' = m then (t.receivers.get m).erase oppositeAttr.getId else t.receivers.get m' := by
  simp only [disable, mapped]
  split <;> exact Table.get_insert_eq ..

theorem disable_transmitters {t : HybridTransmitter} {oppositeAttr : RoleAttributes} {m : OptionalMode}
    (mapped : t.mappedMode oppositeAttr = some m) (m' : OptionalMode) :
    (t.disable oppositeAttr).transmitters.get m' =
      if m' = m ∧ (t.receivers.get m).erase oppositeAttr.getId = ∅ then false else t.transmitters.get m' := by
  simp only [disable, mapped]
  split
  · rename_i empty
    simp only [empty, and_true, Table.get_insert_eq]
  · rename_i some
    rw [if_neg fun both => some both.2]

/-- Enabling succeeds unless a publisher is needed and cannot be created. -/
theorem enableMode_eq_true {m : OptionalMode} {enabled created : Bool}
    (able : m = .intra ∨ m = .shm ∨ enabled = true ∨ created = true) : enableMode m enabled created = true := by
  rcases able with rfl | rfl | rfl | rfl
  · simp [enableMode]
  · simp [enableMode]
  · simp [enableMode]
  · cases m <;> simp [enableMode]

end HybridTransmitter

end CyberRT

import CyberRT.Common.Proto
import CyberRT.Lib.Table
import CyberRT.Lib.Text
import CyberRT.ServiceDiscovery.Manager
import Mathlib.Data.List.Induction

namespace CyberRT
open Concur Text

inductive DiscoveryStatus
  | discoveredRtpsParticipant
  | removedRtpsParticipant
  | droppedRtpsParticipant
  | other
  deriving DecidableEq

/-- What a listener is told of a participant. -/
structure PartInfo (γ : Type) where
  guid : γ
  status : DiscoveryStatus
  rtpsParticipantName : String

/-- The manager, as far as the participants are concerned. -/
structure TopologyManager (γ : Type) where
  init : Bool
  participantNames : Table γ String

namespace TopologyManager
variable {γ : Type} [DecidableEq γ]

/-- The format of a name is `host_name+process_id`. -/
def parseParticipantName (participantName : String) : Option (String × Int) :=
  let chars := participantName.toList
  match chars.idxOf? '+' with
  | none => none
  | some pos => (stoi (chars.drop (pos + 1))).map fun processId => (String.ofList (chars.take pos), processId)

/-- The name that `CreateParticipant` gives its participant. -/
def participantName (hostName : String) (processId : Int) : String :=
  hostName ++ String.ofList ('+' :: ofInt processId)

def changeMsg (optType : OperateType) (hostName : String) (processId : Int) : ChangeMsg where
  operateType := optType
  roleType := .participant
  roleAttr := { RoleAttributes.empty with hostName := some hostName, processId := some processId }

/-- The message is `none` where `Convert` returns false. -/
def convert (m : TopologyManager γ) (info : PartInfo γ) : Option ChangeMsg × TopologyManager γ :=
  let (participantName, optType, m) : String × OperateType × TopologyManager γ :=
    match info.status with
    | .discoveredRtpsParticipant =>
      (info.rtpsParticipantName, .join,
        { m with participantNames := m.participantNames.insert info.guid info.rtpsParticipantName })
    | .removedRtpsParticipant | .droppedRtpsParticipant =>
      match m.participantNames.lookup info.guid with
      | some participantName =>
        (participantName, .leave, { m with participantNames := m.participantNames.erase info.guid })
      | none => ("", .leave, m)
    | .other => ("", .join, m)
  ((parseParticipantName participantName).map fun (hostName, processId) => changeMsg optType hostName processId, m)

/-- The events of the three managers, and the message of `change_signal_`. -/
def onParticipantChange (m : TopologyManager γ) (info : PartInfo γ) :
    (List Manager.Event × Option ChangeMsg) × TopologyManager γ :=
  match m.convert info with
  | (none, m) => (([], none), m)
  | (some msg, m) =>
    if !m.init then (([], none), m)
    else if msg.operateType = .leave then
      (([.onTopoModuleLeave msg.roleAttr.getHostName msg.roleAttr.getProcessId], some msg), m)
    else (([], some msg), m)

/-- The manager after a sequence of events. -/
def run (m : TopologyManager γ) (infos : List (PartInfo γ)) : TopologyManager γ :=
  infos.foldl (fun m info => (m.convert info).2) m

theorem idxOf?_append_cons {host more : List Char} (plain : '+' ∉ host) :
    (host ++ '+' :: more).idxOf? '+' = some host.length := by
  induction host with
  | nil => rfl
  | cons c cs ih =>
    obtain ⟨other, rest⟩ := not_or.mp fun member => plain (List.mem_cons.mpr member)
    rw [List.cons_append, List.idxOf?_cons, if_neg (by simpa using Ne.symm other), ih rest]
    rfl

theorem parseParticipantName_participantName {hostName : String} {processId : Int} (plain : '+' ∉ hostName.toList)
    (inRange : INT_MIN ≤ processId ∧ processId ≤ INT_MAX) :
    parseParticipantName (participantName hostName processId) = some (hostName, processId) := by
  have chars : (participantName hostName processId).toList = hostName.toList ++ '+' :: ofInt processId := by
    rw [participantName, String.toList_append, String.toList_ofList]
  have digits : (hostName.toList ++ '+' :: ofInt processId).drop (hostName.toList.length + 1) = ofInt processId := by
    rw [List.drop_append]
    simp
  simp only [parseParticipantName, chars, idxOf?_append_cons plain, digits, stoi_ofInt inRange, List.take_left,
    Option.map_some, String.ofList_toList]

/-- The process of a participant. Its host name has no plus sign. -/
structure Participant where
  hostName : String
  processId : Int
  plain : '+' ∉ hostName.toList
  inRange : INT_MIN ≤ processId ∧ processId ≤ INT_MAX

namespace Participant

def name (p : Participant) : String :=
  participantName p.hostName p.processId

theorem parse_name (p : Participant) : parseParticipantName p.name = some (p.hostName, p.processId) :=
  parseParticipantName_participantName p.plain p.inRange

end Participant

/-- A discovery event. -/
structure Discovery (γ : Type) where
  guid : γ
  status : DiscoveryStatus
  participant : Participant

namespace Discovery

def info (e : Discovery γ) : PartInfo γ :=
  ⟨e.guid, e.status, e.participant.name⟩

/-- The participant of the latest discovery of a guid, unless it was removed or dropped since. -/
def standing (events : List (Discovery γ)) (guid : γ) : Option Participant :=
  (events.reverse.find? fun e => e.guid = guid ∧ e.status ≠ .other).bind fun e =>
    if e.status = .discoveredRtpsParticipant then some e.participant else none

theorem standing_append (events : List (Discovery γ)) (e : Discovery γ) (guid : γ) :
    standing (events ++ [e]) guid =
      if e.guid = guid ∧ e.status ≠ .other then
        if e.status = .discoveredRtpsParticipant then some e.participant else none
      else standing events guid := by
  rw [standing, List.reverse_append, List.reverse_singleton, List.singleton_append, List.find?_cons]
  by_cases hit : e.guid = guid ∧ e.status ≠ .other
  · rw [if_pos hit, decide_eq_true hit, Option.bind_some]
  · rw [if_neg hit, decide_eq_false hit, standing]

end Discovery

theorem lookup_convert (m : TopologyManager γ) (info : PartInfo γ) (guid : γ) :
    (m.convert info).2.participantNames.lookup guid =
      if info.guid = guid ∧ info.status ≠ .other then
        if info.status = .discoveredRtpsParticipant then some info.rtpsParticipantName else none
      else m.participantNames.lookup guid := by
  obtain ⟨key, status, name⟩ := info
  cases status with
  | discoveredRtpsParticipant =>
    simp only [convert, Table.lookup_insert_eq, ne_eq, reduceCtorEq, not_false_eq_true, and_true, if_true]
    exact if_congr eq_comm rfl rfl
  | removedRtpsParticipant | droppedRtpsParticipant =>
    cases found : m.participantNames.lookup key with
    | some participantName =>
      simp only [convert, found, Table.lookup_erase_eq, ne_eq, reduceCtorEq, not_false_eq_true, and_true, if_false]
      exact if_congr eq_comm rfl rfl
    | none =>
      -- nothing is erased, and the guid is not there
      simp only [convert, found, ne_eq, reduceCtorEq, not_false_eq_true, and_true, if_false]
      by_cases same : key = guid
      · rw [if_pos same, ← same, found]
      · rw [if_neg same]
  | other => simp only [convert, ne_eq, not_true_eq_false, and_false, if_false]

theorem init_convert (m : TopologyManager γ) (info : PartInfo γ) : (m.convert info).2.init = m.init := by
  unfold convert
  cases info.status with
  | discoveredRtpsParticipant | other => rfl
  | removedRtpsParticipant | droppedRtpsParticipant =>
    cases m.participantNames.lookup info.guid with
    | some participantName | none => rfl

theorem init_run (m : TopologyManager γ) (infos : List (PartInfo γ)) : (m.run infos).init = m.init := by
  induction infos generalizing m with
  | nil => rfl
  | cons info infos ih => rw [run, List.foldl_cons, ← run, ih, init_convert]

/-- The table holds the participants that were discovered and did not leave. -/
theorem lookup_run (init : Bool) (events : List (Discovery γ)) (guid : γ) :
    (run ⟨init, ∅⟩ (events.map Discovery.info)).participantNames.lookup guid =
      (Discovery.standing events guid).map Participant.name := by
  induction events using List.reverseRecOn with
  | nil => rfl
  | append_singleton events e ih =>
    have last : run ⟨init, ∅⟩ ((events ++ [e]).map Discovery.info) =
        ((run ⟨init, ∅⟩ (events.map Discovery.info)).convert e.info).2 := by
      rw [run, run, List.map_append, List.foldl_append]
      rfl
    rw [last, lookup_convert, ih, Discovery.standing_append, apply_ite (Option.map Participant.name),
      apply_ite (Option.map Participant.name)]
    rfl

/-- What an event gives after the ones before it. -/
theorem convert_run (init : Bool) (before : List (Discovery γ)) (e : Discovery γ) :
    ((run ⟨init, ∅⟩ (before.map Discovery.info)).convert e.info).1 =
      match e.status with
      | .discoveredRtpsParticipant => some (changeMsg .join e.participant.hostName e.participant.processId)
      | .removedRtpsParticipant | .droppedRtpsParticipant =>
        (Discovery.standing before e.guid).map fun p => changeMsg .leave p.hostName p.processId
      | .other => none := by
  obtain ⟨guid, status, participant⟩ := e
  have held := lookup_run init before guid
  cases status with
  | discoveredRtpsParticipant =>
    simp only [convert, Discovery.info, Participant.parse_name, Option.map_some]
  | removedRtpsParticipant | droppedRtpsParticipant =>
    simp only [convert, Discovery.info, held]
    cases Discovery.standing before guid with
    | some p => simp only [Option.map_some, Participant.parse_name]
    | none => rfl
  | other => rfl

/-- The managers drop the roles of a process when its participant leaves, and at no other event. -/
theorem onTopoModuleLeave_iff {init : Bool} {before : List (Discovery γ)} {e : Discovery γ} {hostName : String}
    {processId : Int} :
    Manager.Event.onTopoModuleLeave hostName processId ∈
        ((run ⟨init, ∅⟩ (before.map Discovery.info)).onParticipantChange e.info).1.1 ↔
      init = true ∧ (e.status = .removedRtpsParticipant ∨ e.status = .droppedRtpsParticipant) ∧
        ∃ p, Discovery.standing before e.guid = some p ∧ p.hostName = hostName ∧ p.processId = processId := by
  have made := convert_run init before e
  have kept := (init_convert _ e.info).trans (init_run ⟨init, ∅⟩ (before.map Discovery.info))
  unfold onParticipantChange
  generalize (run ⟨init, ∅⟩ (before.map Discovery.info)).convert e.info = step at made kept ⊢
  obtain ⟨msg, m⟩ := step
  simp only at made kept
  subst made kept
  cases e.status with
  | discoveredRtpsParticipant | other => cases init : m.init <;> simp [changeMsg, init]
  | removedRtpsParticipant | droppedRtpsParticipant =>
    cases Discovery.standing before e.guid with
    | none => simp
    | some p =>
      cases init : m.init <;>
        simp [changeMsg, init, RoleAttributes.getHostName, RoleAttributes.getProcessId, eq_comm]

end TopologyManager

end CyberRT

import CyberRT.Service.SharedObject

namespace CyberRT.Parameters
open Concur Rpc
variable {κ ι ν : Type}

inductive ParamType
  | notSet
  | bool
  | int
  | double
  | string
  | protobuf
  deriving DecidableEq

/-- `value` is the rest of the message: the name of the type, the value and the descriptor. -/
structure Param (ν : Type) where
  name : String
  type : ParamType
  value : Option ν
  deriving DecidableEq

instance : Inhabited (Param ν) :=
  ⟨⟨"", .notSet, none⟩⟩

inductive ParameterService
  | getParameter
  | setParameter
  | listParameters
  deriving DecidableEq

namespace ParameterService

abbrev Request (ν : Type) : ParameterService → Type
  | getParameter => String
  | setParameter => Param ν
  | listParameters => String

abbrev Response (ν : Type) : ParameterService → Type
  | getParameter => Param ν
  | setParameter => Bool
  | listParameters => List (Param ν)

end ParameterService

/-- The services of a parameter server, which also sets parameters itself. The response to a request for a parameter
that it does not have stays as it was made, and the parameters are listed in whichever order the map has them. -/
def parameterServer : SharedObject ParameterService (Table String (Param ν)) (Param ν) (ParameterService.Request ν)
    (ParameterService.Response ν) where
  answers
    | .getParameter, paramMap, name, response => response = (paramMap.lookup name).getD default
    | .setParameter, _, _, response => response = true
    | .listParameters, paramMap, _, response => response.Perm (paramMap.entries.map Sigma.snd)
  after
    | .getParameter, paramMap, _ => paramMap
    | .setParameter, paramMap, param => paramMap.insert param.name param
    | .listParameters, paramMap, _ => paramMap
  perform paramMap param := paramMap.insert param.name param

instance [DecidableEq ν] (j : ParameterService) (paramMap : Table String (Param ν)) (request : j.Request ν)
    (response : j.Response ν) : Decidable (parameterServer.answers j paramMap request response) :=
  match j with
  | .getParameter => inferInstanceAs (Decidable (response = (paramMap.lookup request).getD default))
  | .setParameter => inferInstanceAs (Decidable (response = true))
  | .listParameters => inferInstanceAs (Decidable (response.Perm (paramMap.entries.map Sigma.snd)))

/-- `ParameterClient::GetParameter`, with the response if there was one. -/
def getParameter (response : Option (Param ν)) : Option (Param ν) :=
  match response with
  | none => none
  | some param => if param.type = .notSet then none else some param

abbrev ServerState (κ ι ν : Type) : Type :=
  SharedState κ ι (Table String (Param ν)) (ParameterService.Request ν) (ParameterService.Response ν)

abbrev ServerEvent (κ ν : Type) : Type :=
  SharedEvent κ (Param ν) (ParameterService.Request ν) (ParameterService.Response ν)

/-- The parameter that an event sets. -/
def setBy (s : ServerState κ ι ν) : ServerEvent κ ν → Option (Param ν)
  | .perform param => some param
  | .rpc .setParameter e => ((s.rpc .setParameter).handles e).map fun handled => handled.1.payload
  | .rpc .getParameter _ => none
  | .rpc .listParameters _ => none

/-- What a parameter was set to last in the first steps of a run. -/
def lastSet (state : Nat → ServerState κ ι ν) (event : Nat → ServerEvent κ ν) (name : String) : Nat → Option (Param ν)
  | 0 => none
  | k + 1 =>
    match setBy (state k) (event k) with
    | none => lastSet state event name k
    | some param => if param.name = name then some param else lastSet state event name k

variable [DecidableEq κ] [DecidableEq ι] [DecidableEq ν] {setup : ParameterService → Setup κ Unit ι}

section Step
variable {s s' : ServerState κ ι ν} {e : ServerEvent κ ν}

theorem step_paramMap (enabled : parameterServer.step setup s e = some s') :
    s'.object = match setBy s e with
      | none => s.object
      | some param => s.object.insert param.name param := by
  cases e with
  | perform param =>
    cases enabled
    rfl
  | rpc j own =>
    obtain ⟨after, -, -, effect⟩ := SharedObject.step_rpc enabled
    cases handled : (s.rpc j).handles own with
    | none =>
      rw [handled] at effect
      rw [effect]
      cases j with
      | setParameter => simp only [setBy, handled, Option.map_none]
      | getParameter | listParameters => rfl
    | some asked =>
      rw [handled] at effect
      rw [effect.2]
      cases j with
      | setParameter => simp only [setBy, handled, Option.map_some, parameterServer]
      | getParameter | listParameters => rfl

end Step

section Runs
variable {n : Nat} {state : Nat → ServerState κ ι ν} {event : Nat → ServerEvent κ ν}

theorem lookup_eq_lastSet (run : (parameterServer.machine setup ∅).Run n state event) (name : String) {k : Nat}
    (bound : k ≤ n) : (state k).object.lookup name = lastSet state event name k := by
  induction k with
  | zero =>
    rw [run.start]
    rfl
  | succ k ih =>
    have before := ih (Nat.le_of_succ_le bound)
    rw [step_paramMap (run.next k bound), lastSet]
    cases setBy (state k) (event k) with
    | none => exact before
    | some param =>
      simp only [Table.lookup_insert_eq, before, eq_comm]

omit [DecidableEq κ] [DecidableEq ι] [DecidableEq ν] in
/-- Nothing sets the parameter between the last time that it was set and now. -/
theorem lastSet_eq_some_iff {name : String} {param : Param ν} {k : Nat} : lastSet state event name k = some param ↔
    ∃ j < k, setBy (state j) (event j) = some param ∧ param.name = name ∧
      ∀ m, j < m → m < k → ∀ other, setBy (state m) (event m) = some other → other.name ≠ name := by
  induction k with
  | zero => exact ⟨nofun, fun ⟨j, before, _⟩ => absurd before (Nat.not_lt_zero j)⟩
  | succ k ih =>
    have passes : (∀ other, setBy (state k) (event k) = some other → other.name ≠ name) →
        ((∃ j < k + 1, setBy (state j) (event j) = some param ∧ param.name = name ∧
            ∀ m, j < m → m < k + 1 → ∀ other, setBy (state m) (event m) = some other → other.name ≠ name) ↔
          lastSet state event name k = some param) := by
      intro differs
      rw [ih]
      constructor
      · rintro ⟨j, before, sets, named, since⟩
        have earlier : j ≠ k := by
          rintro rfl
          exact differs param sets named
        exact ⟨j, by omega, sets, named, fun m after last => since m after (by omega)⟩
      · rintro ⟨j, before, sets, named, since⟩
        refine ⟨j, by omega, sets, named, fun m after last => ?_⟩
        rcases Nat.lt_succ_iff_lt_or_eq.mp last with inside | rfl
        · exact since m after inside
        · exact differs
    rw [lastSet]
    cases sets : setBy (state k) (event k) with
    | none =>
      refine (passes fun other same => ?_).symm
      rw [sets] at same
      cases same
    | some latest =>
      dsimp only
      split
      · rename_i named
        constructor
        · rintro ⟨⟩
          exact ⟨k, Nat.lt_succ_self k, sets, named, fun m after last => by omega⟩
        · rintro ⟨j, before, sets', named', since⟩
          rcases Nat.lt_succ_iff_lt_or_eq.mp before with inside | rfl
          · exact absurd named (since k inside (Nat.lt_succ_self k) latest sets)
          · rw [← sets, sets']
      · rename_i differs
        refine (passes fun other same => ?_).symm
        rw [sets] at same
        cases same
        exact differs

omit [DecidableEq κ] [DecidableEq ι] [DecidableEq ν] in
theorem lastSet_name {name : String} {param : Param ν} {k : Nat} (last : lastSet state event name k = some param) :
    param.name = name := by
  obtain ⟨j, -, -, named, -⟩ := lastSet_eq_some_iff.mp last
  exact named

/-- A call of `GetParameter` that has returned read what the parameter was set to last at one moment between its start
and its return. -/
theorem get_reads_last_set (distinct : ∀ j, Function.Injective (setup j).writerId)
    (run : (parameterServer.machine setup ∅).Run n state event) {c : κ} {call : Nat} {response : Param ν}
    (returned : (call, response) ∈ (((state n).rpc .getParameter).client c).fulfilled) :
    ∃ i < n, ∃ name, (((state i).rpc .getParameter).client c).calls[call]? = some name ∧
      (∀ other, (call, other) ∉ (((state i).rpc .getParameter).client c).fulfilled) ∧
      response = (lastSet state event name i).getD default ∧
      getParameter (some response) = (lastSet state event name i).filter fun param => param.type ≠ .notSet := by
  obtain ⟨i, within, p, request, -, -, -, asked, notYet, answer, -⟩ :=
    SharedObject.takes_effect distinct run returned
  have reads : response = ((state i).object.lookup request.payload).getD default := answer
  rw [lookup_eq_lastSet run request.payload (Nat.le_of_lt within)] at reads
  refine ⟨i, within, request.payload, asked, notYet, reads, ?_⟩
  rw [reads]
  cases lastSet state event request.payload i with
  | none => rfl
  | some param =>
    simp only [getParameter, Option.getD_some, Option.filter_some, ne_eq, decide_not, Bool.not_eq_eq_eq_not, Bool.not_true,
      decide_eq_false_iff_not, ite_not]

/-- A call of `ListParameters` that has returned read all parameters at one moment between its start and its return. -/
theorem list_reads_all (distinct : ∀ j, Function.Injective (setup j).writerId)
    (run : (parameterServer.machine setup ∅).Run n state event) {c : κ} {call : Nat} {response : List (Param ν)}
    (returned : (call, response) ∈ (((state n).rpc .listParameters).client c).fulfilled) :
    ∃ i < n, (∃ name, (((state i).rpc .listParameters).client c).calls[call]? = some name) ∧
      (∀ other, (call, other) ∉ (((state i).rpc .listParameters).client c).fulfilled) ∧
      (response.map Param.name).Nodup ∧
      ∀ param, param ∈ response ↔ lastSet state event param.name i = some param := by
  obtain ⟨i, within, p, request, -, -, -, asked, notYet, answer, -⟩ :=
    SharedObject.takes_effect distinct run returned
  have lists : response.Perm ((state i).object.entries.map Sigma.snd) := answer
  have entry : ∀ x ∈ (state i).object.entries, x.2.name = x.1 := by
    rintro ⟨name, param⟩ member
    rw [Table.mem_entries_iff, lookup_eq_lastSet run name (Nat.le_of_lt within)] at member
    exact lastSet_name member
  have names : ((state i).object.entries.map Sigma.snd).map Param.name = (state i).object.keys := by
    rw [List.map_map]
    exact List.map_congr_left entry
  refine ⟨i, within, ⟨_, asked⟩, notYet, ?_, fun param => ?_⟩
  · rw [(lists.map Param.name).nodup_iff, names]
    exact (state i).object.nodupKeys
  · rw [lists.mem_iff, ← lookup_eq_lastSet run param.name (Nat.le_of_lt within), ← Table.mem_entries_iff, List.mem_map]
    constructor
    · rintro ⟨x, member, rfl⟩
      rw [entry x member]
      exact member
    · exact fun member => ⟨_, member, rfl⟩

omit [DecidableEq κ] [DecidableEq ι] [DecidableEq ν] in
theorem setBy_handleRequest {s : ServerState κ ι ν} {p : Unit} {response : Bool} {request : Message κ ι (Param ν)}
    (handling : ((s.rpc .setParameter).service p).handling = .handleRequest request) :
    setBy s (.rpc .setParameter (.handleRequest p response)) = some request.payload := by
  simp only [setBy, State.handles, handling, Option.map_some]

/-- A call of `SetParameter` that has returned has succeeded, and if no request arrives twice, then it has set the
parameter in one step, between its start and its return, and sets it in no other. -/
theorem set_applied_once (distinct : ∀ j, Function.Injective (setup j).writerId)
    (run : (parameterServer.machine setup ∅).Run n state event)
    (once : (arrived state event .setParameter n).Nodup) {c : κ} {call : Nat} {response : Bool}
    (returned : (call, response) ∈ (((state n).rpc .setParameter).client c).fulfilled) :
    response = true ∧ ∃ i < n, ∃ param, (((state i).rpc .setParameter).client c).calls[call]? = some param ∧
      (∀ other, (call, other) ∉ (((state i).rpc .setParameter).client c).fulfilled) ∧
      setBy (state i) (event i) = some param ∧
      ∀ k < n, Handles (state k) (event k) .setParameter (c, call) ↔ k = i := by
  obtain ⟨i, within, p, request, event_i, handling, own, asked, notYet, answer, -⟩ :=
    SharedObject.takes_effect distinct run returned
  have handles : Handles (state i) (event i) .setParameter (c, call) := ⟨p, response, request, event_i, handling, own⟩
  refine ⟨answer, i, within, request.payload, asked, notYet, ?_, fun k bound => ?_⟩
  · rw [event_i]
    exact setBy_handleRequest handling
  · constructor
    · exact fun again => SharedObject.handled_once run once bound within again handles
    · rintro rfl
      exact handles

omit [DecidableEq κ] [DecidableEq ι] [DecidableEq ν] in
theorem lastSet_since {i k : Nat} {param : Param ν} (sets : setBy (state i) (event i) = some param) (before : i < k) :
    ∃ j latest, i ≤ j ∧ j < k ∧ setBy (state j) (event j) = some latest ∧
      lastSet state event param.name k = some latest := by
  induction k, before using Nat.le_induction with
  | base => exact ⟨i, param, Nat.le_refl i, Nat.lt_succ_self i, sets, by simp only [lastSet, sets, if_true]⟩
  | succ k after ih =>
    obtain ⟨j, latest, from', last, sets', now⟩ := ih
    rw [lastSet]
    cases sets'' : setBy (state k) (event k) with
    | none => exact ⟨j, latest, from', Nat.lt_succ_of_lt last, sets', now⟩
    | some other =>
      by_cases named : other.name = param.name
      · exact ⟨k, other, Nat.le_of_succ_le after, Nat.lt_succ_self k, sets'', if_pos named⟩
      · exact ⟨j, latest, from', Nat.lt_succ_of_lt last, sets', (if_neg named).trans now⟩

/-- A call of `GetParameter` that starts after a call of `SetParameter` for its parameter has returned reads what that
call has set, or what was set later. -/
theorem get_after_set (distinct : ∀ j, Function.Injective (setup j).writerId)
    (run : (parameterServer.machine setup ∅).Run n state event) {k : Nat} (bound : k ≤ n) {c c' : κ} {call call' : Nat}
    {param response : Param ν} {success : Bool}
    (set : (call, success) ∈ (((state k).rpc .setParameter).client c).fulfilled)
    (asked : (((state k).rpc .setParameter).client c).calls[call]? = some param)
    (later : (((state k).rpc .getParameter).client c').calls.length ≤ call')
    (asked' : (((state n).rpc .getParameter).client c').calls[call']? = some param.name)
    (returned : (call', response) ∈ (((state n).rpc .getParameter).client c').fulfilled) :
    ∃ i j, i ≤ j ∧ j < n ∧ Handles (state i) (event i) .setParameter (c, call) ∧
      setBy (state i) (event i) = some param ∧ setBy (state j) (event j) = some response ∧
      response.name = param.name := by
  have first : (parameterServer.machine setup ∅).Run k state event :=
    ⟨run.start, fun m last => run.next m (Nat.lt_of_lt_of_le last bound)⟩
  obtain ⟨i, before, p, request, event_i, handling, own, known, -⟩ := SharedObject.takes_effect distinct first set
  obtain ⟨i', within, name, known', -, reads, -⟩ := get_reads_last_set distinct run returned
  -- the one step comes before `k`, the other after
  obtain rfl : request.payload = param :=
    Option.some.inj ((SharedObject.calls_stay run (Nat.le_of_lt before) bound known).symm.trans asked)
  obtain rfl : name = request.payload.name :=
    Option.some.inj ((SharedObject.calls_stay run (Nat.le_of_lt within) (Nat.le_refl n) known').symm.trans asked')
  have after : k ≤ i' := by
    by_contra earlier
    have shorter := (SharedObject.histories_stay run .getParameter c' (Nat.le_of_not_le earlier) bound).1.length_le
    have issued := (List.getElem?_eq_some_iff.mp known').1
    omega
  have sets : setBy (state i) (event i) = some request.payload := by
    rw [event_i]
    exact setBy_handleRequest handling
  obtain ⟨j, latest, from', last, sets', now⟩ := lastSet_since sets (Nat.lt_of_lt_of_le before after)
  rw [now] at reads
  obtain rfl : response = latest := reads
  exact ⟨i, j, from', Nat.lt_trans last within, ⟨p, success, request, event_i, handling, own⟩, sets, sets',
    lastSet_name now⟩

end Runs

/-- Two clients. -/
def twoClients (_ : ParameterService) : Setup Bool Unit Nat where
  writerId c := if c then 2 else 1
  transmitterId _ := 7

/-- A call of a client, with the response to it. -/
def oneCall (j : ParameterService) (c : Bool) (request : j.Request Nat) (response : j.Response Nat) :
    List (ServerEvent Bool Nat) :=
  [.initClient c, .initService (), .asyncSendRequest c request, .transmit c, .enqueue () 0, .pop (),
    .handleRequest () response, .sendResponse (), .store c, .handleResponse c 0, .setValue c].map (.rpc j)

def speed : Param Nat :=
  ⟨"speed", .int, some 5⟩

/-- One client sets a parameter, the other gets it and lists all. -/
def setGetList : List (ServerEvent Bool Nat) :=
  oneCall .setParameter false speed true ++ oneCall .getParameter true "speed" speed ++
    oneCall .listParameters true "node" [speed]

def stateAt : Nat → ServerState Bool Nat Nat :=
  (parameterServer.machine twoClients ∅).stateAt setGetList

def eventAt (i : Nat) : ServerEvent Bool Nat :=
  setGetList.getD i (.perform speed)

theorem setGetList_run : (parameterServer.machine twoClients ∅).Run 33 stateAt eventAt :=
  Machine.exec_run setGetList (by decide) (.perform speed)

theorem twoClients_distinct (j : ParameterService) : Function.Injective (twoClients j).writerId := by
  intro c c' same
  cases c <;> cases c' <;> first | rfl | cases same

theorem set_returned : (0, true) ∈ (((stateAt 11).rpc .setParameter).client false).fulfilled := by
  decide

theorem get_returned : (0, speed) ∈ (((stateAt 33).rpc .getParameter).client true).fulfilled := by
  decide

theorem get_reads_last_set_setGetList :
    ∃ i < 33, ∃ name, (((stateAt i).rpc .getParameter).client true).calls[0]? = some name ∧
      (∀ other, (0, other) ∉ (((stateAt i).rpc .getParameter).client true).fulfilled) ∧
      speed = (lastSet stateAt eventAt name i).getD default ∧
      getParameter (some speed) = (lastSet stateAt eventAt name i).filter fun param => param.type ≠ .notSet :=
  get_reads_last_set twoClients_distinct setGetList_run get_returned

theorem list_reads_all_setGetList :
    ∃ i < 33, (∃ name, (((stateAt i).rpc .listParameters).client true).calls[0]? = some name) ∧
      (∀ other, (0, other) ∉ (((stateAt i).rpc .listParameters).client true).fulfilled) ∧
      ([speed].map Param.name).Nodup ∧
      ∀ param, param ∈ [speed] ↔ lastSet stateAt eventAt param.name i = some param :=
  list_reads_all twoClients_distinct setGetList_run (by decide)

theorem set_applied_once_setGetList :
    ∃ i < 11, ∃ param, (((stateAt i).rpc .setParameter).client false).calls[0]? = some param ∧
      (∀ other, (0, other) ∉ (((stateAt i).rpc .setParameter).client false).fulfilled) ∧
      setBy (stateAt i) (eventAt i) = some param ∧
      ∀ k < 11, Handles (stateAt k) (eventAt k) .setParameter (false, 0) ↔ k = i :=
  (set_applied_once twoClients_distinct ⟨setGetList_run.start, fun i bound => setGetList_run.next i (by omega)⟩
    (by decide) set_returned).2

theorem get_after_set_setGetList :
    ∃ i j, i ≤ j ∧ j < 33 ∧ Handles (stateAt i) (eventAt i) .setParameter (false, 0) ∧
      setBy (stateAt i) (eventAt i) = some speed ∧ setBy (stateAt j) (eventAt j) = some speed := by
  have asked : (((stateAt 11).rpc .setParameter).client false).calls[0]? = some speed := by decide
  obtain ⟨i, j, before, last, handles, sets, sets', -⟩ := get_after_set twoClients_distinct setGetList_run (by decide)
    set_returned asked (by decide) (by decide) get_returned
  exact ⟨i, j, before, last, handles, sets, sets'⟩

end CyberRT.Parameters

import CyberRT.Lib.Machine
import CyberRT.Lib.Text
import CyberRT.Transport.HybridTransmitter

namespace CyberRT
open Concur
variable {M : Type}

inductive QosHistoryPolicy
  | systemDefault
  | keepLast
  | keepAll
  deriving DecidableEq

inductive QosDurabilityPolicy
  | systemDefault
  | transientLocal
  | volatile
  deriving DecidableEq

/-- The parts of a profile that a history depends on. -/
structure QosProfile where
  history : QosHistoryPolicy
  depth : Nat
  durability : QosDurabilityPolicy
  deriving DecidableEq

/-- `resource_limit().max_history_depth()`, if the configuration has it. -/
def maxDepth (maxHistoryDepth : Option Nat) : Nat :=
  maxHistoryDepth.getD 1000

structure History (M : Type) where
  enabled : Bool
  depth : Nat
  msgs : List M
  deriving DecidableEq

namespace History

def init (policy : QosHistoryPolicy) (depth : Nat) (maxHistoryDepth : Option Nat) : History M where
  enabled := false
  depth :=
    if policy = .keepAll then maxDepth maxHistoryDepth
    else if depth > maxDepth maxHistoryDepth then maxDepth maxHistoryDepth
    else depth
  msgs := []

/-- The loop of `Add`. -/
def popFront (depth : Nat) : List M → List M
  | [] => []
  | msg :: msgs => if (msg :: msgs).length > depth then popFront depth msgs else msg :: msgs

def add (h : History M) (msg : M) : History M :=
  if !h.enabled then h else { h with msgs := popFront h.depth (h.msgs ++ [msg]) }

theorem popFront_eq_drop (depth : Nat) (msgs : List M) : popFront depth msgs = msgs.drop (msgs.length - depth) := by
  induction msgs with
  | nil => exact List.drop_nil.symm
  | cons msg msgs ih =>
    rw [popFront]
    split
    · rename_i more
      have one : (msg :: msgs).length - depth = msgs.length - depth + 1 := by
        rw [List.length_cons] at more ⊢
        omega
      rw [ih, one, List.drop_succ_cons]
    · rename_i few
      rw [Nat.sub_eq_zero_of_le (Nat.le_of_not_lt few), List.drop_zero]

/-- What the history holds of all messages, it holds of one more. -/
theorem popFront_append (depth : Nat) (all : List M) (msg : M) :
    popFront depth (all.drop (all.length - depth) ++ [msg]) = (all ++ [msg]).drop ((all ++ [msg]).length - depth) := by
  have kept : all.drop (all.length - depth) ++ [msg] = (all ++ [msg]).drop (all.length - depth) := by
    rw [List.drop_append_of_le_length (Nat.sub_le ..)]
  rw [kept, popFront_eq_drop, List.drop_drop, List.length_drop]
  congr 1
  rw [List.length_append, List.length_singleton]
  omega

end History

/-- The channel on which a writer sends its history to one reader: their ids, one after the other. -/
def historyChannel (writer reader : UInt64) : List Char :=
  Nat.toDigits 10 writer.toNat ++ Nat.toDigits 10 reader.toNat

/-- A task that sends a history. `enabled` is `none` until it has made its transmitter. -/
structure HistoryTask (M : Type) where
  channelName : List Char
  enabled : Option Bool
  sent : List M
  unsent : List M
  deriving DecidableEq

namespace HistoryTask

/-- The next step of `ThreadFunc`: `created` is whether a publisher can be created. A transmitter without one drops what
it is to send. -/
def threadFunc (t : HistoryTask M) (created : Bool) : HistoryTask M :=
  match t.enabled, t.unsent with
  | none, _ => { t with enabled := some created }
  | some true, msg :: msgs => { t with sent := t.sent ++ [msg], unsent := msgs }
  | some false, _ :: msgs => { t with unsent := msgs }
  | some _, [] => t

theorem threadFunc_channelName (t : HistoryTask M) (created : Bool) :
    (t.threadFunc created).channelName = t.channelName := by
  unfold threadFunc
  split <;> rfl

/-- A task sends what it is to send, in order, unless it has no publisher. -/
theorem threadFunc_messages {t : HistoryTask M} {created : Bool} (publishes : (t.threadFunc created).enabled ≠ some false) :
    t.enabled ≠ some false ∧
      (t.threadFunc created).sent ++ (t.threadFunc created).unsent = t.sent ++ t.unsent := by
  unfold threadFunc at publishes ⊢
  split at publishes
  · rename_i fresh
    exact ⟨by rw [fresh]; exact nofun, rfl⟩
  · rename_i on more
    refine ⟨by rw [on]; exact nofun, ?_⟩
    dsimp only
    rw [more, List.append_assoc, List.singleton_append]
  · rename_i off more
    exact absurd off publishes
  · rename_i on none
    exact ⟨publishes, rfl⟩

end HistoryTask

namespace Durable

/-- A writer's transmitter with its history. `transmitted` is all that it was given to send, and `live m` all that it has
sent through the underlying transmitter of mode `m`. -/
structure State (M : Type) where
  transmitter : HybridTransmitter
  history : History M
  tasks : List (HistoryTask M)
  transmitted : List M
  live : OptionalMode → List M

inductive Event (M : Type)
  | enable (oppositeAttr : RoleAttributes) (created : Bool)
  | disable (oppositeAttr : RoleAttributes)
  | transmit (msg : M)
  | threadFunc (t : Nat) (created : Bool)

variable (attr : RoleAttributes) (mode : CommunicationMode) (qos : QosProfile) (maxHistoryDepth : Option Nat)

def initHistory : History M :=
  let history := .init qos.history qos.depth maxHistoryDepth
  if qos.durability = .transientLocal then { history with enabled := true } else history

def transmitHistoryMsg (s : State M) (oppositeAttr : RoleAttributes) : State M :=
  if qos.durability ≠ .transientLocal then s
  else if s.history.msgs.isEmpty then s
  else { s with
    tasks := s.tasks ++ [⟨historyChannel s.transmitter.attr.getId oppositeAttr.getId, none, [], s.history.msgs⟩] }

def step (s : State M) : Event M → State M
  | .enable oppositeAttr created =>
    match s.transmitter.mappedMode oppositeAttr with
    | none => s
    | some _ =>
      transmitHistoryMsg qos { s with transmitter := s.transmitter.enable oppositeAttr created } oppositeAttr
  | .disable oppositeAttr => { s with transmitter := s.transmitter.disable oppositeAttr }
  | .transmit msg => { s with
      history := s.history.add msg
      transmitted := s.transmitted ++ [msg]
      live := fun m => if s.transmitter.transmitters.get m then s.live m ++ [msg] else s.live m }
  | .threadFunc t created => { s with tasks := s.tasks.modify t fun task => task.threadFunc created }

def machine : Machine (State M) (Event M) where
  init := ⟨.init attr mode, initHistory qos maxHistoryDepth, [], [], fun _ => []⟩
  step s e := some (step qos s e)

variable {attr mode qos maxHistoryDepth}

/-- What holds of a writer whose messages are kept for readers to come. -/
structure Inv (attr : RoleAttributes) (mode : CommunicationMode) (depth : Nat) (s : State M) : Prop where
  own : s.transmitter.attr = attr
  mapped : s.transmitter.mappedMode = (HybridTransmitter.init attr mode).mappedMode
  enabled : s.history.enabled = true
  bounded : s.history.depth = depth
  kept : s.history.msgs = s.transmitted.drop (s.transmitted.length - depth)

/-- A reader has been enabled. -/
def State.Serves (s : State M) (m : OptionalMode) (id : UInt64) : Prop :=
  id ∈ s.transmitter.receivers.get m ∧ s.transmitter.transmitters.get m = true

/-- A task is about to send some messages on a channel, or has sent them. -/
def HasTask (s : State M) (t : Nat) (channelName : List Char) (msgs : List M) : Prop :=
  ∃ task, s.tasks[t]? = some task ∧ task.channelName = channelName ∧
    (task.enabled ≠ some false → task.sent ++ task.unsent = msgs)

section Step
variable {depth : Nat} {s : State M} {e : Event M} {m : OptionalMode} {id : UInt64}

theorem transmitHistoryMsg_same (qos : QosProfile) (s : State M) (oppositeAttr : RoleAttributes) :
    (transmitHistoryMsg qos s oppositeAttr).transmitter = s.transmitter ∧
      (transmitHistoryMsg qos s oppositeAttr).history = s.history ∧
      (transmitHistoryMsg qos s oppositeAttr).transmitted = s.transmitted ∧
      (transmitHistoryMsg qos s oppositeAttr).live = s.live := by
  unfold transmitHistoryMsg
  split
  · exact ⟨rfl, rfl, rfl, rfl⟩
  · split <;> exact ⟨rfl, rfl, rfl, rfl⟩

theorem init_inv (durable : qos.durability = .transientLocal) : Inv attr mode
    (initHistory (M := M) qos maxHistoryDepth).depth (machine (M := M) attr mode qos maxHistoryDepth).init where
  own := rfl
  mapped := rfl
  enabled := by
    simp only [machine, initHistory, durable, if_true]
  bounded := rfl
  kept := by
    simp only [machine, initHistory, durable, if_true]
    exact List.drop_nil.symm

theorem step_inv (inv : Inv attr mode depth s) (e : Event M) : Inv attr mode depth (step qos s e) := by
  cases e with
  | enable oppositeAttr created =>
    dsimp only [step]
    split
    · exact inv
    · obtain ⟨transmitter, history, transmitted, -⟩ :=
        transmitHistoryMsg_same qos { s with transmitter := s.transmitter.enable oppositeAttr created } oppositeAttr
      refine ⟨?_, ?_, ?_, ?_, ?_⟩
      · rw [transmitter, HybridTransmitter.enable_attr]
        exact inv.own
      · rw [transmitter, HybridTransmitter.enable_mappedMode]
        exact inv.mapped
      · rw [history]
        exact inv.enabled
      · rw [history]
        exact inv.bounded
      · rw [history, transmitted]
        exact inv.kept
  | disable oppositeAttr =>
    exact ⟨(HybridTransmitter.disable_attr ..).trans inv.own, (HybridTransmitter.disable_mappedMode ..).trans inv.mapped,
      inv.enabled, inv.bounded, inv.kept⟩
  | transmit msg =>
    have added : s.history.add msg = { s.history with msgs := History.popFront depth (s.history.msgs ++ [msg]) } := by
      simp only [History.add, inv.enabled, inv.bounded, Bool.not_true, Bool.false_eq_true, if_false]
    refine ⟨inv.own, inv.mapped, ?_, ?_, ?_⟩
    · simp only [step, added, inv.enabled]
    · simp only [step, added, inv.bounded]
    · simp only [step, added]
      rw [inv.kept, History.popFront_append]
  | threadFunc t created => exact ⟨inv.own, inv.mapped, inv.enabled, inv.bounded, inv.kept⟩

/-- A reader that is enabled stays so until it is disabled. -/
theorem step_serves (serves : s.Serves m id)
    (stays : ∀ a, e = .disable a → s.transmitter.mappedMode a = some m → a.getId ≠ id) : (step qos s e).Serves m id := by
  obtain ⟨member, enabled⟩ := serves
  cases e with
  | enable a created =>
    dsimp only [step]
    split
    · exact ⟨member, enabled⟩
    · rename_i m' mapped
      rw [State.Serves, (transmitHistoryMsg_same ..).1]
      dsimp only
      rw [HybridTransmitter.enable_receivers mapped, HybridTransmitter.enable_transmitters mapped]
      by_cases same : m = m'
      · subst same
        rw [if_pos rfl, if_pos rfl]
        exact ⟨Finset.mem_insert_of_mem member, HybridTransmitter.enableMode_eq_true (.inr (.inr (.inl enabled)))⟩
      · rw [if_neg same, if_neg same]
        exact ⟨member, enabled⟩
  | disable a =>
    cases mapped : s.transmitter.mappedMode a with
    | none =>
      have same : s.transmitter.disable a = s.transmitter := by
        simp only [HybridTransmitter.disable, mapped]
      rw [State.Serves, step, same]
      exact ⟨member, enabled⟩
    | some m' =>
      rw [State.Serves, step]
      dsimp only
      rw [HybridTransmitter.disable_receivers mapped, HybridTransmitter.disable_transmitters mapped]
      by_cases same : m = m'
      · subst same
        have remains : id ∈ (s.transmitter.receivers.get m).erase a.getId :=
          Finset.mem_erase_of_ne_of_mem (stays a rfl mapped).symm member
        rw [if_pos rfl, if_neg fun gone => Finset.ne_empty_of_mem remains gone.2]
        exact ⟨remains, enabled⟩
      · rw [if_neg same, if_neg fun both => same both.1]
        exact ⟨member, enabled⟩
  | transmit | threadFunc => exact ⟨member, enabled⟩

/-- What a writer transmits while a mode is enabled goes out through it. -/
theorem step_live (qos : QosProfile) (serves : s.Serves m id) (e : Event M) :
    ∃ new, (step qos s e).live m = s.live m ++ new ∧ (step qos s e).transmitted = s.transmitted ++ new := by
  cases e with
  | enable a created =>
    refine ⟨[], ?_⟩
    rw [List.append_nil, List.append_nil]
    dsimp only [step]
    split
    · exact ⟨rfl, rfl⟩
    · obtain ⟨-, -, transmitted, live⟩ :=
        transmitHistoryMsg_same qos { s with transmitter := s.transmitter.enable a created } a
      rw [transmitted, live]
      exact ⟨rfl, rfl⟩
  | disable | threadFunc => exact ⟨[], (List.append_nil _).symm, (List.append_nil _).symm⟩
  | transmit msg => exact ⟨[msg], if_pos serves.2, rfl⟩

theorem step_hasTask {t : Nat} {channelName : List Char} {msgs : List M} (task : HasTask s t channelName msgs)
    (e : Event M) : HasTask (step qos s e) t channelName msgs := by
  obtain ⟨task, found, named, sends⟩ := task
  cases e with
  | enable a created =>
    dsimp only [step, transmitHistoryMsg]
    split
    · exact ⟨task, found, named, sends⟩
    · split
      · exact ⟨task, found, named, sends⟩
      · split
        · exact ⟨task, found, named, sends⟩
        · refine ⟨task, ?_, named, sends⟩
          dsimp only
          rw [List.getElem?_append_left (List.getElem?_eq_some_iff.mp found).1, found]
  | disable | transmit => exact ⟨task, found, named, sends⟩
  | threadFunc t' created =>
    by_cases same : t' = t
    · subst same
      refine ⟨task.threadFunc created, ?_, (task.threadFunc_channelName created).trans named, fun publishes => ?_⟩
      · simp only [step, List.getElem?_modify_eq, found, Option.map_eq_map, Option.map_some]
      · obtain ⟨before, same⟩ := HistoryTask.threadFunc_messages publishes
        exact same.trans (sends before)
    · refine ⟨task, ?_, named, sends⟩
      simp only [step, List.getElem?_modify_ne _ _ same, found]

/-- A reader that joins is enabled, and a task of its own sends it what the writer keeps, unless that is nothing. -/
theorem step_join (inv : Inv attr mode depth s) (durable : qos.durability = .transientLocal) {reader : RoleAttributes}
    (created : Bool) (mapped : s.transmitter.mappedMode reader = some m)
    (able : m = .intra ∨ m = .shm ∨ s.transmitter.transmitters.get m = true ∨ created = true) :
    (step qos s (.enable reader created)).Serves m reader.getId ∧
      (s.history.msgs = [] ∨ ∃ t, HasTask (step qos s (.enable reader created)) t
        (historyChannel attr.getId reader.getId) s.history.msgs) := by
  have joins : step qos s (.enable reader created) =
      transmitHistoryMsg qos { s with transmitter := s.transmitter.enable reader created } reader := by
    simp only [step, mapped]
  rw [joins]
  constructor
  · rw [State.Serves, (transmitHistoryMsg_same ..).1]
    dsimp only
    rw [HybridTransmitter.enable_receivers mapped, HybridTransmitter.enable_transmitters mapped, if_pos rfl, if_pos rfl]
    exact ⟨Finset.mem_insert_self .., HybridTransmitter.enableMode_eq_true able⟩
  · by_cases empty : s.history.msgs = []
    · exact .inl empty
    · refine .inr ⟨s.tasks.length, ⟨historyChannel (s.transmitter.enable reader created).attr.getId reader.getId, none, [],
        s.history.msgs⟩, ?_, ?_, fun _ => List.nil_append _⟩
      · simp only [transmitHistoryMsg, durable, ne_eq, not_true_eq_false, if_false, List.isEmpty_iff, empty]
        rw [List.getElem?_append_right (Nat.le_refl _), Nat.sub_self, List.getElem?_cons_zero]
      · dsimp only
        rw [HybridTransmitter.enable_attr, inv.own]

end Step

section Runs
variable {n : Nat} {state : Nat → State M} {event : Nat → Event M}

theorem run_step (run : (machine attr mode qos maxHistoryDepth).Run n state event) {k : Nat} (bound : k < n) :
    state (k + 1) = step qos (state k) (event k) :=
  (Option.some.inj (run.next k bound)).symm

theorem run_inv (run : (machine attr mode qos maxHistoryDepth).Run n state event)
    (durable : qos.durability = .transientLocal) {k : Nat} (bound : k ≤ n) :
    Inv attr mode (initHistory (M := M) qos maxHistoryDepth).depth (state k) :=
  (run.reach bound).invariant (init_inv durable) fun _ _ _ inv enabled => Option.some.inj enabled ▸ step_inv inv _

/-- A reader that joins a writer that keeps its messages misses none and gets none twice: what its own task sends it,
followed by what goes out through its mode from then on, is all that the writer has transmitted, but for what was
too old when the reader joined. -/
theorem late_reader_gapless (run : (machine attr mode qos maxHistoryDepth).Run n state event)
    (durable : qos.durability = .transientLocal) {i : Nat} (bound : i < n) {reader : RoleAttributes} {created : Bool}
    (joins : event i = .enable reader created) {m : OptionalMode}
    (mapped : (state i).transmitter.mappedMode reader = some m)
    (able : m = .intra ∨ m = .shm ∨ (state i).transmitter.transmitters.get m = true ∨ created = true)
    (stays : ∀ k, i < k → k < n → ∀ a, event k = .disable a → (state k).transmitter.mappedMode a = some m →
      a.getId ≠ reader.getId) :
    ∃ kept since, (kept = [] ∨ ∃ t, HasTask (state n) t (historyChannel attr.getId reader.getId) kept) ∧
      (state n).live m = (state i).live m ++ since ∧
      kept ++ since = (state n).transmitted.drop
        ((state i).transmitted.length - (initHistory (M := M) qos maxHistoryDepth).depth) := by
  have inv := run_inv run durable (Nat.le_of_lt bound)
  obtain ⟨serves, task⟩ := step_join inv durable created mapped able
  rw [← joins, ← run_step run bound] at serves task
  have unchanged : (state (i + 1)).live m = (state i).live m ∧ (state (i + 1)).transmitted = (state i).transmitted := by
    rw [run_step run bound, joins]
    simp only [step, mapped, (transmitHistoryMsg_same ..).2.2.1, (transmitHistoryMsg_same ..).2.2.2]
    exact ⟨trivial, trivial⟩
  have later : (state n).Serves m reader.getId ∧
      (∀ t, HasTask (state (i + 1)) t (historyChannel attr.getId reader.getId) (state i).history.msgs →
        HasTask (state n) t (historyChannel attr.getId reader.getId) (state i).history.msgs) ∧
      ∃ since, (state n).live m = (state i).live m ++ since ∧
        (state n).transmitted = (state i).transmitted ++ since := by
    refine run.stays (P := fun s => s.Serves m reader.getId ∧
      (∀ t, HasTask (state (i + 1)) t (historyChannel attr.getId reader.getId) (state i).history.msgs →
        HasTask s t (historyChannel attr.getId reader.getId) (state i).history.msgs) ∧
      ∃ since, s.live m = (state i).live m ++ since ∧ s.transmitted = (state i).transmitted ++ since)
      ⟨serves, fun _ => id, [], by rw [unchanged.1, List.append_nil], by rw [unchanged.2, List.append_nil]⟩ bound
      (Nat.le_refl n) fun k first last now _ => ?_
    obtain ⟨serves, tasks, since, live, transmitted⟩ := now
    rw [run_step run last]
    obtain ⟨new, live', transmitted'⟩ := step_live qos serves (event k)
    refine ⟨step_serves serves (stays k first last), fun t has => step_hasTask (tasks t has) _, since ++ new, ?_, ?_⟩
    · rw [live', live, List.append_assoc]
    · rw [transmitted', transmitted, List.append_assoc]
  obtain ⟨-, tasks, since, live, transmitted⟩ := later
  refine ⟨(state i).history.msgs, since, ?_, live, ?_⟩
  · exact task.imp_right fun ⟨t, has⟩ => ⟨t, tasks t has⟩
  · rw [inv.kept, transmitted, List.drop_append_of_le_length (Nat.sub_le ..)]

end Runs

def writerAttr : RoleAttributes :=
  { RoleAttributes.empty with channelName := some "/c", id := some 1 }

def readerAttr : RoleAttributes :=
  { RoleAttributes.empty with channelName := some "/c", processId := some 7, id := some 2 }

/-- The writer keeps two messages. A reader of another process joins after three, and gets the last of these from a task,
and the fourth as it is sent. -/
def lateReader : List (Event Nat) :=
  [.transmit 10, .transmit 11, .transmit 12, .enable readerAttr false, .threadFunc 0 true, .threadFunc 0 true,
    .transmit 13, .threadFunc 0 true]

def keepTwo : QosProfile :=
  ⟨.keepLast, 2, .transientLocal⟩

def lateReaderState : Nat → State Nat :=
  (machine writerAttr .default keepTwo none).stateAt lateReader

def lateReaderEvent (k : Nat) : Event Nat :=
  lateReader.getD k (.transmit 0)

theorem late_reader_gapless_lateReader :
    ∃ kept since, (kept = [] ∨ ∃ t, HasTask (lateReaderState 8) t (historyChannel 1 2) kept) ∧
      (lateReaderState 8).live .shm = (lateReaderState 3).live .shm ++ since ∧ kept ++ since = [11, 12, 13] := by
  have run : (machine writerAttr .default keepTwo none).Run 8 lateReaderState lateReaderEvent :=
    Machine.exec_run lateReader rfl (.transmit 0)
  have never : ∀ k a, lateReaderEvent k ≠ .disable a
    | 0, _ | 1, _ | 2, _ | 3, _ | 4, _ | 5, _ | 6, _ | 7, _ | _ + 8, _ => nofun
  have joins : lateReaderEvent 3 = .enable readerAttr false := rfl
  exact late_reader_gapless run rfl (by decide) joins (by decide) (.inr (.inl rfl))
    fun k _ _ a disables => absurd disables (never k a)

end Durable

theorem toDigits_inj {a b : UInt64} : Nat.toDigits 10 a.toNat = Nat.toDigits 10 b.toNat ↔ a = b := by
  constructor
  · intro same
    have values := congrArg (fun digits => Nat.ofDigitChars 10 digits 0) same
    simp only [Nat.ofDigitChars_ten_toDigits] at values
    exact UInt64.toNat_inj.mp values
  · rintro rfl
    rfl

/-- Two pairs of a writer and a reader share a channel for the history only if the id of one writer is the beginning of
the id of the other, and what follows it there the beginning of the id of a reader. -/
theorem historyChannel_eq_iff {w r w' r' : UInt64} : historyChannel w r = historyChannel w' r' ↔
    (w = w' ∧ r = r') ∨ ∃ digits, digits ≠ [] ∧
      ((Nat.toDigits 10 w'.toNat = Nat.toDigits 10 w.toNat ++ digits ∧
        Nat.toDigits 10 r.toNat = digits ++ Nat.toDigits 10 r'.toNat) ∨
       (Nat.toDigits 10 w.toNat = Nat.toDigits 10 w'.toNat ++ digits ∧
        Nat.toDigits 10 r'.toNat = digits ++ Nat.toDigits 10 r.toNat)) := by
  unfold historyChannel
  rw [List.append_eq_append_iff]
  constructor
  · rintro (⟨digits, longer, shorter⟩ | ⟨digits, longer, shorter⟩)
    · by_cases none : digits = []
      · subst none
        rw [List.append_nil] at longer
        exact .inl ⟨(toDigits_inj.mp longer).symm, toDigits_inj.mp shorter⟩
      · exact .inr ⟨digits, none, .inl ⟨longer, shorter⟩⟩
    · by_cases none : digits = []
      · subst none
        rw [List.append_nil] at longer
        exact .inl ⟨toDigits_inj.mp longer, (toDigits_inj.mp shorter).symm⟩
      · exact .inr ⟨digits, none, .inr ⟨longer, shorter⟩⟩
  · rintro (⟨rfl, rfl⟩ | ⟨digits, -, ⟨longer, shorter⟩ | ⟨longer, shorter⟩⟩)
    · exact .inl ⟨[], (List.append_nil _).symm, rfl⟩
    · exact .inl ⟨digits, longer, shorter⟩
    · exact .inr ⟨digits, longer, shorter⟩

example : historyChannel 1 23 = historyChannel 12 3 := by decide

end CyberRT

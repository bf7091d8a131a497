import CyberRT.Base.AtomicRWLock
import CyberRT.Io.Poller
import Mathlib.Algebra.GroupWithZero.Nat

namespace CyberRT.Poller
open Concur
universe u
variable {κ : Type u}

/-- Where the thread of the poller stands in a round of its loop. -/
inductive ThreadPc
  | handleChanges
  | epollCtl
  | getTimeoutMs
  | epollWait (timeoutMs : Int)
  | collect (ready : List (Int × UInt32)) (intervalNs : Nat)
  | deliver (responses : Table Int UInt32)

/-- A request as it was registered. The code keeps none of the rest: how many rounds had begun, whether no empty
response was on its way to the descriptor, and the responses since. -/
structure Registration where
  timeoutMs : Int
  since : Nat
  quiet : Bool
  responses : List UInt32
  deriving DecidableEq

/-- The tables with the thread of the poller, the durations of the rounds so far in nanoseconds, and the requests that
are registered. -/
structure Polling (κ : Type u) where
  tables : State κ
  pc : ThreadPc
  rounds : List Nat
  registrations : Table Int Registration

def kPollTimeoutMs : Int := 100

def getTimeoutMs (requests : Table Int (PollRequest κ)) : Int :=
  requests.entries.foldl
    (fun timeoutMs item =>
      if 0 ≤ item.2.timeoutMs ∧ item.2.timeoutMs < timeoutMs then item.2.timeoutMs else timeoutMs) kPollTimeoutMs

/-- The `interval_ms` of a round, which is not zero. -/
def intervalMs (intervalNs : Nat) : Int :=
  let ms := int32 (intervalNs / 1000000)
  if ms = 0 then 1 else ms

/-- What a round leaves of the timeout of a request. -/
def countDown (timeoutMs intervalMs : Int) : Int :=
  if timeoutMs > 0 then
    let rest := int32 (timeoutMs - intervalMs)
    if rest < 0 then 0 else rest
  else timeoutMs

/-- The empty response. The kernel reports no descriptor without an event. -/
def noEvents : UInt32 := 0

/-- The first loop of `Poll` at a request, with the response that it makes. -/
def collectRequest (ctrlParams : Table Int PollCtrlParam) (intervalMs : Int) (request : PollRequest κ) :
    PollRequest κ × Option UInt32 :=
  if request.fd ∈ ctrlParams then (request, none)
  else
    let timeoutMs := countDown request.timeoutMs intervalMs
    if timeoutMs = 0 then ({ request with timeoutMs := -1 }, some noEvents) else ({ request with timeoutMs }, none)

/-- The events that the kernel has reported take the place of the empty responses. -/
def putEvents (responses : Table Int UInt32) (ready : List (Int × UInt32)) : Table Int UInt32 :=
  ready.foldl (fun responses event => responses.insert event.1 event.2) responses

namespace Polling

/-- The rounds that have begun. -/
def begun (s : Polling κ) : Nat :=
  match s.pc with
  | .epollWait _ | .collect .. => s.rounds.length + 1
  | _ => s.rounds.length

/-- The response that the thread has for a descriptor. -/
def pending (s : Polling κ) (fd : Int) : Option UInt32 :=
  match s.pc with
  | .deliver responses => responses.lookup fd
  | _ => none

/-- The rounds begun since a request was registered, each counted with its whole milliseconds and at least one. -/
def waitedMs (rounds : List Nat) (r : Registration) : Nat :=
  ((rounds.drop r.since).map fun intervalNs => max 1 (intervalNs / 1000000)).sum

def register (s : Polling κ) (req : PollRequest κ) : Polling κ :=
  { s with
    tables := (Poller.register s.tables req).2
    registrations :=
      if req.Valid then
        s.registrations.insert req.fd ⟨req.timeoutMs, s.begun, s.pending req.fd ≠ some noEvents, []⟩
      else s.registrations }

def unregister (s : Polling κ) (req : PollRequest κ) : Polling κ :=
  { s with
    tables := (Poller.unregister s.tables req).2
    registrations := if req.Valid then s.registrations.erase req.fd else s.registrations }

/-- The part of `Poll` that holds the lock, and the events. -/
def collect (s : Polling κ) (ready : List (Int × UInt32)) (intervalNs : Nat) : Polling κ :=
  let visit := collectRequest s.tables.ctrlParams (intervalMs intervalNs)
  { s with
    tables := { s.tables with requests := s.tables.requests.filterMap fun _ request => some (visit request).1 }
    pc := .deliver (putEvents (s.tables.requests.filterMap fun _ request => (visit request).2) ready)
    rounds := s.rounds ++ [intervalNs] }

/-- A response goes to the request that the table has now. -/
def deliver (s : Polling κ) (responses : Table Int UInt32) (fd : Int) (response : UInt32) : Polling κ :=
  let answer (request : PollRequest κ) : PollRequest κ := { request with timeoutMs := -1 }
  let note (r : Registration) : Registration := { r with responses := r.responses ++ [response] }
  { s with
    tables := { s.tables with requests := s.tables.requests.modify fd answer }
    pc := .deliver (responses.erase fd)
    registrations := s.registrations.modify fd note }

end Polling

/-- The calls of `Register` and `Unregister` by anyone, and the steps of the thread. What `epoll_wait` reports and
how long it takes is up to the kernel; the loop over the responses has any order. -/
inductive PollEvent (κ : Type u)
  | register (req : PollRequest κ)
  | unregister (req : PollRequest κ)
  | takeParams
  | epollCtl (fd : Int)
  | handled
  | getTimeoutMs
  | epollWait (ready : List (Int × UInt32)) (intervalNs : Nat)
  | collect
  | deliver (fd : Int)
  | polled

def Polling.step (s : Polling κ) : PollEvent κ → Option (Polling κ)
  | .register req => some (s.register req)
  | .unregister req => some (s.unregister req)
  | .takeParams =>
    match s.pc with
    | .handleChanges => some { s with
        tables := takeParams s.tables
        pc := if s.tables.ctrlParams.entries.isEmpty then .getTimeoutMs else .epollCtl }
    | _ => none
  | .epollCtl fd =>
    match s.pc with
    | .epollCtl => (Poller.step s.tables (.epollCtl fd)).map fun tables => { s with tables }
    | _ => none
  | .handled =>
    match s.pc with
    | .epollCtl => (Poller.step s.tables .handled).map fun tables => { s with tables, pc := .getTimeoutMs }
    | _ => none
  | .getTimeoutMs =>
    match s.pc with
    | .getTimeoutMs => some { s with pc := .epollWait (Poller.getTimeoutMs s.tables.requests) }
    | _ => none
  | .epollWait ready intervalNs =>
    match s.pc with
    | .epollWait _ =>
      if ∀ event ∈ ready, event.2 ≠ noEvents then some { s with pc := .collect ready intervalNs } else none
    | _ => none
  | .collect =>
    match s.pc with
    | .collect ready intervalNs => some (s.collect ready intervalNs)
    | _ => none
  | .deliver fd =>
    match s.pc with
    | .deliver responses => (responses.lookup fd).map (s.deliver responses fd)
    | _ => none
  | .polled =>
    match s.pc with
    | .deliver responses => if responses.entries.isEmpty then some { s with pc := .handleChanges } else none
    | _ => none

def polling (pipeFd : Int) (drainPipe : κ) : Machine (Polling κ) (PollEvent κ) where
  init := ⟨(machine pipeFd drainPipe).init, .handleChanges, [], ∅⟩
  step := Polling.step

theorem int32_spec (x : Int) : -(2 ^ 31) ≤ int32 x ∧ int32 x < 2 ^ 31 ∧ ∃ k, int32 x = x - 2 ^ 32 * k := by
  have lower := Int.le_bmod (x := x) (m := 2 ^ 32) (by decide)
  have upper := Int.bmod_lt (x := x) (m := 2 ^ 32) (by decide)
  obtain ⟨k, same⟩ := Int.dvd_self_sub_bmod (x := x) (m := 2 ^ 32)
  unfold int32
  exact ⟨by omega, by omega, k, by omega⟩

/-- A round takes no more from the timeout than it counts for, and does not wrap around. -/
theorem countDown_bounds {timeoutMs : Int} (positive : 0 < timeoutMs) (fits : timeoutMs < 2 ^ 31) (intervalNs : Nat) :
    0 ≤ countDown timeoutMs (intervalMs intervalNs) ∧ countDown timeoutMs (intervalMs intervalNs) < 2 ^ 31 ∧
      timeoutMs ≤ countDown timeoutMs (intervalMs intervalNs) + (max 1 (intervalNs / 1000000) : Nat) := by
  obtain ⟨low, high, k, ms⟩ := int32_spec (intervalNs / 1000000)
  obtain ⟨low', high', k', rest⟩ := int32_spec (timeoutMs - intervalMs intervalNs)
  have interval : intervalMs intervalNs =
      if int32 (intervalNs / 1000000) = 0 then 1 else int32 (intervalNs / 1000000) := rfl
  unfold countDown
  simp only [if_pos positive]
  split at interval <;> split <;> omega

theorem putEvents_empty {ready : List (Int × UInt32)} (reported : ∀ event ∈ ready, event.2 ≠ noEvents)
    {responses : Table Int UInt32} {fd : Int}
    (empty : (putEvents responses ready).lookup fd = some noEvents) : responses.lookup fd = some noEvents := by
  induction ready generalizing responses with
  | nil => exact empty
  | cons event ready ih =>
    have before := ih (fun other there => reported other (List.mem_cons_of_mem _ there)) empty
    rw [Table.lookup_insert_eq] at before
    split at before
    · exact absurd (Option.some.inj before) (reported event (List.mem_cons_self ..))
    · exact before

theorem waitedMs_append (rounds : List Nat) (intervalNs : Nat) (r : Registration) :
    Polling.waitedMs rounds r ≤ Polling.waitedMs (rounds ++ [intervalNs]) r := by
  unfold Polling.waitedMs
  rw [List.drop_append, List.map_append, List.sum_append]
  exact Nat.le_add_right ..

/-- A round counts for the requests that were registered when it began. -/
theorem waitedMs_round {rounds : List Nat} {r : Registration} (before : r.since ≤ rounds.length) (intervalNs : Nat) :
    Polling.waitedMs (rounds ++ [intervalNs]) r = Polling.waitedMs rounds r + max 1 (intervalNs / 1000000) := by
  unfold Polling.waitedMs
  rw [List.drop_append_of_le_length before, List.map_append, List.sum_append]
  rfl

/-- What is known of a request with its timeout, the response that is on its way, and the time it has waited. While
the timeout is running no response has come, and the time makes up for what it has lost; an empty response is on its
way only once the time is over, and it is the first. -/
structure Timed (r : Registration) (timeoutMs : Int) (pending : Option UInt32) (waitedMs : Nat) : Prop where
  running : 0 < timeoutMs → timeoutMs < 2 ^ 31 ∧ r.timeoutMs ≤ timeoutMs + waitedMs ∧ r.responses = [] ∧
    pending ≠ some noEvents
  nonzero : timeoutMs ≠ 0
  elapsed : pending = some noEvents → timeoutMs < 0 ∧ r.timeoutMs ≤ waitedMs ∧ r.responses = []
  answered : noEvents ∈ r.responses → r.timeoutMs ≤ waitedMs
  first : noEvents ∉ r.responses.tail

theorem Timed.new {r : Registration} (none_ : r.responses = []) (positive : 0 < r.timeoutMs)
    (fits : r.timeoutMs < 2 ^ 31) {pending : Option UInt32} (quiet : pending ≠ some noEvents) (waitedMs : Nat) :
    Timed r r.timeoutMs pending waitedMs where
  running _ := ⟨fits, by omega, none_, quiet⟩
  nonzero := positive.ne'
  elapsed empty := absurd empty quiet
  answered there := by simp [none_] at there
  first := by simp [none_]

/-- A round that does not look at the request. -/
theorem Timed.skip {r : Registration} {timeoutMs : Int} {before after : Option UInt32} {waitedMs waitedMs' : Nat}
    (timed : Timed r timeoutMs before waitedMs) (later : waitedMs ≤ waitedMs') (quiet : after ≠ some noEvents) :
    Timed r timeoutMs after waitedMs' where
  running positive := by
    obtain ⟨fits, bound, none_, -⟩ := timed.running positive
    exact ⟨fits, by omega, none_, quiet⟩
  nonzero := timed.nonzero
  elapsed empty := absurd empty quiet
  answered there := by
    have bound := timed.answered there
    omega
  first := timed.first

/-- A round that counts the timeout down. -/
theorem Timed.round {r : Registration} {timeoutMs : Int} {waitedMs : Nat}
    (timed : Timed r timeoutMs none waitedMs) (after : Option UInt32) (intervalNs : Nat)
    (empty : after = some noEvents → countDown timeoutMs (intervalMs intervalNs) = 0) :
    Timed r (if countDown timeoutMs (intervalMs intervalNs) = 0 then -1
      else countDown timeoutMs (intervalMs intervalNs)) after (waitedMs + max 1 (intervalNs / 1000000)) := by
  by_cases positive : 0 < timeoutMs
  · obtain ⟨fits, bound, none_, -⟩ := timed.running positive
    obtain ⟨nonneg, fits', taken⟩ := countDown_bounds positive fits intervalNs
    split
    · rename_i zero
      exact ⟨nofun, by decide, fun _ => ⟨by decide, by omega, none_⟩, fun _ => by omega, timed.first⟩
    · rename_i left
      refine ⟨fun _ => ⟨fits', by omega, none_, fun there => left (empty there)⟩, left,
        fun there => absurd (empty there) left, fun there => ?_, timed.first⟩
      simp [none_] at there
  · have same : countDown timeoutMs (intervalMs intervalNs) = timeoutMs := if_neg positive
    rw [same] at empty ⊢
    rw [if_neg timed.nonzero]
    exact timed.skip (Nat.le_add_right ..) fun there => timed.nonzero (empty there)

/-- The response is delivered. -/
theorem Timed.deliver {r : Registration} {timeoutMs : Int} {response : UInt32} {waitedMs : Nat}
    (timed : Timed r timeoutMs (some response) waitedMs) :
    Timed { r with responses := r.responses ++ [response] } (-1) none waitedMs := by
  refine ⟨nofun, by decide, nofun, fun there => ?_, ?_⟩
  · rcases List.mem_append.mp there with before | now
    · exact timed.answered before
    · exact (timed.elapsed (congrArg some (List.mem_singleton.mp now).symm)).2.1
  · by_cases empty : response = noEvents
    · rw [(timed.elapsed (congrArg some empty)).2.2]
      exact List.not_mem_nil
    · intro there
      have old := timed.first
      cases responses : r.responses with
      | nil => simp [responses] at there
      | cons one rest =>
        simp only [responses, List.cons_append, List.tail_cons, List.mem_append, List.mem_singleton] at there old
        exact there.elim old fun now => empty now.symm

namespace Polling
variable {s s' : Polling κ}

/-- A request that is registered and what the tables have for it. -/
structure Tracked (s : Polling κ) (fd : Int) (r : Registration) (request : PollRequest κ) : Prop where
  begun : r.since ≤ s.begun
  handled : fd ∉ s.tables.ctrlParams → r.since ≤ s.rounds.length
  timed : 0 < r.timeoutMs → r.timeoutMs < 2 ^ 31 → r.quiet = true →
    Timed r request.timeoutMs (s.pending fd) (waitedMs s.rounds r)

structure Inv (s : Polling κ) : Prop where
  keyed : ∀ fd request, s.tables.requests.lookup fd = some request → request.fd = fd
  reported : ∀ ready intervalNs, s.pc = .collect ready intervalNs → ∀ event ∈ ready, event.2 ≠ noEvents
  tracked : ∀ fd r, s.registrations.lookup fd = some r →
    ∃ request, s.tables.requests.lookup fd = some request ∧ Tracked s fd r request

theorem Inv.init (pipeFd : Int) (drainPipe : κ) : (polling pipeFd drainPipe).init.Inv where
  keyed := by
    intro fd request found
    simp only [polling, machine, Table.lookup_insert_eq] at found
    split at found
    · rename_i same
      cases found
      exact same.symm
    · cases found
  reported := nofun
  tracked := nofun

theorem Inv.register (inv : s.Inv) (req : PollRequest κ) : (s.register req).Inv := by
  unfold Polling.register Poller.register
  by_cases valid : req.Valid
  · simp only [if_pos valid]
    refine ⟨fun fd request found => ?_, inv.reported, fun fd r found => ?_⟩
    · rw [Table.lookup_insert_eq] at found
      split at found
      · rename_i same
        cases found
        exact same.symm
      · exact inv.keyed fd request found
    · rw [Table.lookup_insert_eq] at found
      simp only [Table.lookup_insert_eq]
      by_cases same : fd = req.fd
      · subst same
        rw [if_pos rfl] at found
        cases found
        refine ⟨req, if_pos rfl, le_rfl, fun handled => ?_, fun positive fits quiet => ?_⟩
        · exact absurd ((AList.mem_insert _).mpr (.inl rfl)) handled
        · exact .new rfl positive fits (of_decide_eq_true quiet) _
      · rw [if_neg same] at found ⊢
        obtain ⟨request, here, tracked⟩ := inv.tracked fd r found
        refine ⟨request, here, tracked.begun, fun handled => tracked.handled ?_, tracked.timed⟩
        exact fun there => handled ((AList.mem_insert _).mpr (.inr there))
  · simp only [if_neg valid]
    exact inv

theorem Inv.unregister (inv : s.Inv) (req : PollRequest κ) : (s.unregister req).Inv := by
  unfold Polling.unregister Poller.unregister
  by_cases valid : req.Valid
  · simp only [if_pos valid]
    have others : ∀ fd r, (s.registrations.erase req.fd).lookup fd = some r →
        fd ≠ req.fd ∧ s.registrations.lookup fd = some r := by
      intro fd r found
      rw [Table.lookup_erase_eq] at found
      split at found
      · cases found
      · rename_i different
        exact ⟨different, found⟩
    split
    · refine ⟨fun fd request found => ?_, inv.reported, fun fd r found => ?_⟩
      · rw [Table.lookup_erase_eq] at found
        split at found
        · cases found
        · exact inv.keyed fd request found
      · obtain ⟨different, found⟩ := others fd r found
        obtain ⟨request, here, tracked⟩ := inv.tracked fd r found
        refine ⟨request, ?_, tracked.begun, fun handled => tracked.handled ?_, tracked.timed⟩
        · simp only [Table.lookup_erase_eq, if_neg different, here]
        · exact fun there => handled ((AList.mem_insert _).mpr (.inr there))
    · refine ⟨inv.keyed, inv.reported, fun fd r found => ?_⟩
      obtain ⟨request, here, tracked⟩ := inv.tracked fd r (others fd r found).2
      exact ⟨request, here, tracked.begun, tracked.handled, tracked.timed⟩
  · simp only [if_neg valid]
    exact inv

/-- A step of the thread that moves on without a look at the requests. -/
theorem Inv.moves (inv : s.Inv) {tables : State κ} {pc : ThreadPc} (requests : tables.requests = s.tables.requests)
    (handled : ∀ fd, fd ∈ s.tables.ctrlParams → fd ∉ tables.ctrlParams → s.begun ≤ s.rounds.length)
    (reported : ∀ ready intervalNs, pc = .collect ready intervalNs → ∀ event ∈ ready, event.2 ≠ noEvents)
    (begun : s.begun ≤ ({ s with tables, pc } : Polling κ).begun)
    (pending : ∀ fd, ({ s with tables, pc } : Polling κ).pending fd = s.pending fd) :
    ({ s with tables, pc } : Polling κ).Inv := by
  refine ⟨fun fd request found => inv.keyed fd request ?_, reported, fun fd r found => ?_⟩
  · rw [← requests]
    exact found
  · obtain ⟨request, here, tracked⟩ := inv.tracked fd r found
    refine ⟨request, ?_, tracked.begun.trans begun, fun absent => ?_, fun positive fits quiet => ?_⟩
    · rw [← here, ← requests]
    · by_cases there : fd ∈ s.tables.ctrlParams
      · exact tracked.begun.trans (handled fd there absent)
      · exact tracked.handled there
    · rw [pending]
      exact tracked.timed positive fits quiet

theorem collectRequest_fd (ctrlParams : Table Int PollCtrlParam) (intervalMs : Int) (request : PollRequest κ) :
    (collectRequest ctrlParams intervalMs request).1.fd = request.fd := by
  unfold collectRequest
  split
  · rfl
  · simp only
    split <;> rfl

theorem Inv.collect (inv : s.Inv) {ready : List (Int × UInt32)} {intervalNs : Nat}
    (atPc : s.pc = .collect ready intervalNs) : (s.collect ready intervalNs).Inv := by
  have reported := inv.reported ready intervalNs atPc
  refine ⟨fun fd request found => ?_, nofun, fun fd r found => ?_⟩
  · simp only [Polling.collect, Table.lookup_filterMap] at found
    obtain ⟨old, here, made⟩ := Option.bind_eq_some_iff.mp found
    cases made
    exact (collectRequest_fd ..).trans (inv.keyed fd old here)
  · obtain ⟨request, here, tracked⟩ := inv.tracked fd r found
    have pending : s.pending fd = none := by rw [Polling.pending, atPc]
    have begun : s.begun = s.rounds.length + 1 := by rw [Polling.begun, atPc]
    have longer : (s.rounds ++ [intervalNs]).length = s.rounds.length + 1 := List.length_append
    have empty : (s.collect ready intervalNs).pending fd = some noEvents →
        (collectRequest s.tables.ctrlParams (intervalMs intervalNs) request).2 = some noEvents := by
      intro there
      have first := putEvents_empty reported there
      simpa only [Table.lookup_filterMap, here, Option.bind_some] using first
    refine ⟨(collectRequest s.tables.ctrlParams (intervalMs intervalNs) request).1, ?_, ?_, fun handled => ?_,
      fun positive fits quiet => ?_⟩
    · simp only [Polling.collect, Table.lookup_filterMap, here, Option.bind_some]
    · exact (tracked.begun.trans_eq begun).trans_eq longer.symm
    · exact (tracked.handled handled).trans ((Nat.le_succ _).trans_eq longer.symm)
    · have timed := tracked.timed positive fits quiet
      rw [pending] at timed
      have same := inv.keyed fd request here
      unfold collectRequest at empty ⊢
      rw [same] at empty ⊢
      by_cases waits : fd ∈ s.tables.ctrlParams
      · rw [if_pos waits] at empty ⊢
        exact timed.skip (waitedMs_append ..) fun there => absurd (empty there) nofun
      · rw [if_neg waits] at empty ⊢
        have round := timed.round ((s.collect ready intervalNs).pending fd) intervalNs fun there => by
          have zero := empty there
          simp only at zero
          split at zero
          · assumption
          · cases zero
        rw [← waitedMs_round (tracked.handled waits)] at round
        simp only
        split at round
        · rename_i zero
          rw [if_pos zero]
          exact round
        · rename_i left
          rw [if_neg left]
          exact round

theorem Inv.deliver (inv : s.Inv) {responses : Table Int UInt32} (atPc : s.pc = .deliver responses) {fd : Int}
    {response : UInt32} (found : responses.lookup fd = some response) : (s.deliver responses fd response).Inv := by
  have pending : ∀ fd', s.pending fd' = responses.lookup fd' := fun fd' => by rw [Polling.pending, atPc]
  have begun : s.begun = s.rounds.length := by rw [Polling.begun, atPc]
  refine ⟨fun fd' request there => ?_, nofun, fun fd' r there => ?_⟩
  · simp only [Polling.deliver, Table.lookup_modify] at there
    split at there
    · obtain ⟨old, here, rfl⟩ := Option.map_eq_some_iff.mp there
      exact inv.keyed fd' old here
    · exact inv.keyed fd' request there
  · simp only [Polling.deliver, Table.lookup_modify] at there ⊢
    by_cases same : fd' = fd
    · subst same
      rw [if_pos rfl] at there
      obtain ⟨old, before, rfl⟩ := Option.map_eq_some_iff.mp there
      obtain ⟨request, here, tracked⟩ := inv.tracked fd' old before
      refine ⟨{ request with timeoutMs := -1 }, ?_, tracked.begun.trans_eq begun, tracked.handled,
        fun positive fits quiet => ?_⟩
      · rw [if_pos rfl, here, Option.map_some]
      · have timed := tracked.timed positive fits quiet
        rw [pending, found] at timed
        simp only [Polling.pending, Table.lookup_erase_eq, if_true]
        exact timed.deliver
    · rw [if_neg same] at there
      obtain ⟨request, here, tracked⟩ := inv.tracked fd' r there
      refine ⟨request, ?_, tracked.begun.trans_eq begun, tracked.handled, fun positive fits quiet => ?_⟩
      · rw [if_neg same, here]
      · have timed := tracked.timed positive fits quiet
        rw [pending] at timed
        simpa only [Polling.pending, Table.lookup_erase_eq, if_neg same] using timed

theorem takeParams_requests (s : State κ) : (takeParams s).requests = s.requests := by
  unfold takeParams
  split <;> rfl

/-- The operations of `HandleChanges` do not touch the requests and the operations still to be taken. -/
theorem epollCtl_keeps {s s' : State κ} {e : Event κ} (step : Poller.step s e = some s')
    (handles : (∃ fd, e = .epollCtl fd) ∨ e = .handled) : s'.requests = s.requests ∧ s'.ctrlParams = s.ctrlParams := by
  rcases handles with ⟨fd, rfl⟩ | rfl
  · simp only [Poller.step] at step
    split at step
    · cases step
    · obtain ⟨param, -, rfl⟩ := Option.map_eq_some_iff.mp step
      exact ⟨rfl, rfl⟩
  · simp only [Poller.step] at step
    split at step
    · cases step
    · obtain ⟨-, ⟨⟩⟩ := Option.ite_none_right_eq_some.mp step
      exact ⟨rfl, rfl⟩

/-- What a step does. -/
inductive Moves (s : Polling κ) : PollEvent κ → Polling κ → Prop
  | register (req : PollRequest κ) : Moves s (.register req) (s.register req)
  | unregister (req : PollRequest κ) : Moves s (.unregister req) (s.unregister req)
  | takeParams (atPc : s.pc = .handleChanges) :
      Moves s .takeParams { s with
        tables := Poller.takeParams s.tables
        pc := if s.tables.ctrlParams.entries.isEmpty then .getTimeoutMs else .epollCtl }
  | epollCtl (fd : Int) (tables : State κ) (did : Poller.step s.tables (.epollCtl fd) = some tables) :
      Moves s (.epollCtl fd) { s with tables }
  | handled (tables : State κ) (atPc : s.pc = .epollCtl) (did : Poller.step s.tables .handled = some tables) :
      Moves s .handled { s with tables, pc := .getTimeoutMs }
  | getTimeoutMs (atPc : s.pc = .getTimeoutMs) :
      Moves s .getTimeoutMs { s with pc := .epollWait (Poller.getTimeoutMs s.tables.requests) }
  | epollWait (ready : List (Int × UInt32)) (intervalNs : Nat) (timeoutMs : Int) (atPc : s.pc = .epollWait timeoutMs)
      (reported : ∀ event ∈ ready, event.2 ≠ noEvents) :
      Moves s (.epollWait ready intervalNs) { s with pc := .collect ready intervalNs }
  | collect (ready : List (Int × UInt32)) (intervalNs : Nat) (atPc : s.pc = .collect ready intervalNs) :
      Moves s .collect (s.collect ready intervalNs)
  | deliver (fd : Int) (response : UInt32) (responses : Table Int UInt32) (atPc : s.pc = .deliver responses)
      (found : responses.lookup fd = some response) : Moves s (.deliver fd) (s.deliver responses fd response)
  | polled (atPc : s.pc = .deliver ∅) : Moves s .polled { s with pc := .handleChanges }

theorem step_moves {e : PollEvent κ} (step : s.step e = some s') : Moves s e s' := by
  unfold Polling.step at step
  split at step
  · cases step
    exact .register _
  · cases step
    exact .unregister _
  · split at step
    · cases step
      exact .takeParams ‹_›
    · cases step
  · split at step
    · obtain ⟨tables, did, rfl⟩ := Option.map_eq_some_iff.mp step
      exact .epollCtl _ tables did
    · cases step
  · split at step
    · obtain ⟨tables, did, rfl⟩ := Option.map_eq_some_iff.mp step
      exact .handled tables ‹_› did
    · cases step
  · split at step
    · cases step
      exact .getTimeoutMs ‹_›
    · cases step
  · split at step
    · obtain ⟨reported, ⟨⟩⟩ := Option.ite_none_right_eq_some.mp step
      exact .epollWait _ _ _ ‹_› reported
    · cases step
  · split at step
    · cases step
      exact .collect _ _ ‹_›
    · cases step
  · split at step
    · obtain ⟨response, found, rfl⟩ := Option.map_eq_some_iff.mp step
      exact .deliver _ response _ ‹_› found
    · cases step
  · split at step
    · rename_i responses atPc
      obtain ⟨done, ⟨⟩⟩ := Option.ite_none_right_eq_some.mp step
      have empty : responses = ∅ := AList.ext (List.isEmpty_iff.mp done)
      exact .polled (empty ▸ atPc)
    · cases step

/-- The thread goes on to a place where it has responses exactly as before, and where no fewer rounds have begun. -/
theorem Inv.goes (inv : s.Inv) {pc : ThreadPc}
    (reported : ∀ ready intervalNs, pc = .collect ready intervalNs → ∀ event ∈ ready, event.2 ≠ noEvents)
    (begun : s.begun ≤ ({ s with pc } : Polling κ).begun)
    (pending : ∀ fd, ({ s with pc } : Polling κ).pending fd = s.pending fd) : ({ s with pc } : Polling κ).Inv :=
  inv.moves rfl (fun _ there gone => absurd there gone) reported begun pending

theorem Inv.step (inv : s.Inv) {e : PollEvent κ} (moves : Moves s e s') : s'.Inv := by
  cases moves with
  | register req => exact inv.register req
  | unregister req => exact inv.unregister req
  | takeParams atPc =>
    have idle : s.begun = s.rounds.length := by rw [begun, atPc]
    have quiet : ∀ fd, s.pending fd = none := fun fd => by rw [pending, atPc]
    by_cases none_ : s.tables.ctrlParams.entries.isEmpty
    · rw [if_pos none_]
      exact inv.moves (takeParams_requests _) (fun _ _ _ => idle.le) nofun idle.le fun fd => (quiet fd).symm
    · rw [if_neg none_]
      exact inv.moves (takeParams_requests _) (fun _ _ _ => idle.le) nofun idle.le fun fd => (quiet fd).symm
  | epollCtl fd tables did =>
    obtain ⟨requests, params⟩ := epollCtl_keeps did (.inl ⟨fd, rfl⟩)
    exact inv.moves requests (fun fd there gone => absurd (params ▸ there) gone) inv.reported le_rfl fun _ => rfl
  | handled tables atPc did =>
    obtain ⟨requests, params⟩ := epollCtl_keeps did (.inr rfl)
    refine inv.moves requests (fun fd there gone => absurd (params ▸ there) gone) nofun ?_ fun fd => ?_
    · rw [begun, begun, atPc]
    · rw [pending, pending, atPc]
  | getTimeoutMs atPc =>
    refine inv.goes nofun ?_ fun fd => ?_
    · rw [begun, begun, atPc]
      exact Nat.le_succ _
    · rw [pending, pending, atPc]
  | epollWait ready intervalNs timeoutMs atPc reported =>
    refine inv.goes ?_ ?_ fun fd => ?_
    · rintro _ _ ⟨rfl, rfl⟩
      exact reported
    · rw [begun, begun, atPc]
    · rw [pending, pending, atPc]
  | collect ready intervalNs atPc => exact inv.collect atPc
  | deliver fd response responses atPc found => exact inv.deliver atPc found
  | polled atPc =>
    refine inv.goes nofun ?_ fun fd => ?_
    · rw [begun, begun, atPc]
    · rw [pending, pending, atPc]
      rfl

/-- A request is delivered the empty response only after rounds that began after it was registered and that count, each
with its whole milliseconds and at least one, for its timeout; and only as the first response, so that it comes once at
most and not after an event. -/
theorem timed_out_in_time {pipeFd : Int} {drainPipe : κ} (reach : (polling pipeFd drainPipe).Reach s) {fd : Int}
    {r : Registration} (registered : s.registrations.lookup fd = some r) (positive : 0 < r.timeoutMs)
    (fits : r.timeoutMs < 2 ^ 31) (quiet : r.quiet = true) {before after : List UInt32}
    (answered : r.responses = before ++ noEvents :: after) :
    r.timeoutMs ≤ waitedMs s.rounds r ∧ before = [] ∧ noEvents ∉ after := by
  have inv : s.Inv := reach.invariant (Inv.init pipeFd drainPipe) fun _ _ _ inv step => inv.step (step_moves step)
  obtain ⟨request, -, tracked⟩ := inv.tracked fd r registered
  have timed := tracked.timed positive fits quiet
  have first := timed.first
  refine ⟨timed.answered (by simp [answered]), ?_⟩
  rw [answered] at first
  cases before with
  | nil => exact ⟨rfl, first⟩
  | cons one rest => exact absurd (List.mem_append_right rest (List.mem_cons_self ..)) first

/-- A request of 2 ms, a round that had begun without it, and two that another descriptor ends after a microsecond
each. -/
def shortRounds : List (PollEvent Unit) :=
  [.takeParams, .epollCtl 3, .handled, .register ⟨5, 1, 2, some ()⟩, .getTimeoutMs, .epollWait [(3, 1)] 50000,
    .collect, .deliver 3, .polled, .takeParams, .epollCtl 5, .handled, .getTimeoutMs, .epollWait [(7, 1)] 1000,
    .collect, .deliver 7, .polled, .takeParams, .getTimeoutMs, .epollWait [(7, 1)] 1000, .collect, .deliver 5]

theorem shortRounds_registered :
    ((polling 3 ()).stateAt shortRounds 22).registrations.lookup 5 = some ⟨2, 0, true, [noEvents]⟩ := by
  decide +kernel

theorem shortRounds_timed_out :
    2 ≤ waitedMs ((polling 3 ()).stateAt shortRounds 22).rounds ⟨2, 0, true, [noEvents]⟩ := by
  have reach := Machine.stateAt_reach (M := polling 3 ()) shortRounds (by decide +kernel)
  have answered : [noEvents] = [] ++ noEvents :: [] := rfl
  have counted := timed_out_in_time reach shortRounds_registered (by decide) (by decide) rfl answered
  exact Int.ofNat_le.mp counted.1

/-- The timeout of 2 ms is over after 52 microseconds. -/
theorem shortRounds_early :
    ¬ ∀ s, (polling 3 ()).Reach s → ∀ fd r, s.registrations.lookup fd = some r → 0 < r.timeoutMs →
      noEvents ∈ r.responses → (r.timeoutMs - 1) * 1000000 ≤ (s.rounds.drop r.since).sum := by
  intro always
  have reach := Machine.stateAt_reach (M := polling 3 ()) shortRounds (by decide +kernel)
  have rounds : ((polling 3 ()).stateAt shortRounds shortRounds.length).rounds = [50000, 1000, 1000] := by
    decide +kernel
  have waited := always _ reach 5 _ shortRounds_registered (by decide) (by decide)
  rw [rounds] at waited
  exact absurd waited (by decide)

end Polling

end CyberRT.Poller

import CyberRT.Io.Poller
import CyberRT.Scheduler.NotifyProcessor
import CyberRT.Scheduler.Processor

namespace CyberRT.PollHandler
open Concur Poller
universe u

def epollOut : UInt32 := 4

def epollOneShot : UInt32 := 0x40000000

def epollEt : UInt32 := 0x80000000

/-- Where the coroutine stands in `Block`. It is suspended at `readResponse`, or before its first call. -/
inductive BlockPc
  | start
  | register (timeoutMs : Int)
  | setIoWait
  | swapContext
  | readResponse
  | stopBlocking
  deriving DecidableEq

/-- Where the thread of the poller stands, as far as this descriptor is concerned. From `loadBlocking` on it is
in `ResponseCallback`, under the read lock of the poller. -/
inductive PollerPc
  | takeParams
  | epollCtl
  | epollWait
  | collect (ready : Option UInt32)
  | deliver (response : UInt32)
  | loadBlocking (response : UInt32)
  | setResponse (response : UInt32)
  | readState
  | notifyTask (pc : NotifyPc)
  deriving DecidableEq

/-- The thread of the poller is in `ResponseCallback`. -/
def PollerPc.InCallback : PollerPc → Prop
  | .loadBlocking _ | .setResponse _ | .readState | .notifyTask _ => True
  | _ => False

instance (pc : PollerPc) : Decidable pc.InCallback :=
  match pc with
  | .loadBlocking _ | .setResponse _ | .readState | .notifyTask _ => inferInstanceAs (Decidable True)
  | .takeParams | .epollCtl | .epollWait | .collect _ | .deliver _ => inferInstanceAs (Decidable False)

/-- A handler with the coroutine that uses it, the entry of the poller for its descriptor and any number of
processors. `pending` says that the descriptor is in `ctrl_params_`, `armed` that the kernel will report it
once; `answered`, which the code does not keep, that the request registered last has been delivered a response. -/
structure State (π : Type u) where
  isBlocking : Bool
  isRead : Bool
  response : UInt32
  result : Bool
  routine : CRoutine
  block : BlockPc
  request : Option (PollRequest Unit)
  pending : Bool
  armed : Bool
  answered : Bool
  poller : PollerPc
  processors : π → Processor.Pc

/-- What the coroutine asks of its next `Block`. -/
structure BlockArgs where
  timeoutMs : Int
  isRead : Bool

/-- What the kernel and the clock decide: whether `epoll_wait` reports the descriptor, and with which events,
and how long it has taken. -/
structure PollChoice where
  ready : Option UInt32
  intervalMs : Nat

inductive Event (π : Type u)
  | process (p : π) (now : Nat) (args : BlockArgs)
  | poll (choice : PollChoice)

variable {π : Type u}

/-- The request that `Fill` makes. -/
def fill (fd : Int) (args : BlockArgs) : PollRequest Unit :=
  ⟨fd, epollEt ||| epollOneShot ||| (if args.isRead then epollIn else epollOut), args.timeoutMs, some ()⟩

/-- One access of `Block`, which runs on a processor. `Register` has to wait for the read lock of the poller. -/
def blockStep (fd : Int) (s : State π) (args : BlockArgs) : Option (State π) :=
  match s.block with
  | .start =>
    if args.timeoutMs = 0 ∨ fd < 0 then some { s with result := false }
    else if s.isBlocking then some { s with result := false }
    else some { s with isBlocking := true, isRead := args.isRead, block := .register args.timeoutMs }
  | .register timeoutMs =>
    if s.poller.InCallback then none
    else some { s with
      request := some (fill fd ⟨timeoutMs, s.isRead⟩)
      pending := true
      answered := false
      block := .setIoWait }
  | .setIoWait => some { s with routine := s.routine.setState .ioWait, block := .swapContext }
  | .swapContext => some { s with block := .readResponse }
  | .readResponse =>
    some { s with result := s.response &&& (if s.isRead then epollIn else epollOut) ≠ 0, block := .stopBlocking }
  | .stopBlocking => some { s with isBlocking := false, block := .start }

/-- The timeout of a request that has waited for an interval, and whether it has come. -/
def elapse (timeoutMs : Int) (intervalMs : Nat) : Int :=
  if timeoutMs > 0 then max 0 (timeoutMs - max 1 intervalMs) else timeoutMs

/-- One access of the thread of the poller: `HandleChanges`, then `Poll`. -/
def pollStep (s : State π) (choice : PollChoice) : State π :=
  match s.poller with
  | .takeParams => { s with pending := false, poller := if s.pending then .epollCtl else .epollWait }
  | .epollCtl => { s with armed := true, poller := .epollWait }
  | .epollWait =>
    match s.armed, choice.ready with
    | true, some events => { s with armed := false, poller := .collect (some events) }
    | _, _ => { s with poller := .collect none }
  | .collect ready =>
    match s.request, s.pending with
    | some request, false =>
      let timeoutMs := elapse request.timeoutMs choice.intervalMs
      if timeoutMs = 0 then
        { s with request := some { request with timeoutMs := -1 }, poller := .deliver (ready.getD 0) }
      else
        { s with
          request := some { request with timeoutMs := timeoutMs }
          poller := ready.elim .takeParams .deliver }
    | _, _ => { s with poller := ready.elim .takeParams .deliver }
  | .deliver response =>
    match s.request with
    | none => { s with poller := .takeParams }
    | some request =>
      { s with
        request := some { request with timeoutMs := -1 }
        answered := true
        poller := .loadBlocking response }
  | .loadBlocking response => { s with poller := if s.isBlocking then .setResponse response else .takeParams }
  | .setResponse response => { s with response := response, poller := .readState }
  | .readState =>
    { s with poller := if s.routine.state = .ioWait then .notifyTask .readDataWait else .takeParams }
  | .notifyTask .notify => { s with poller := .takeParams }
  | .notifyTask pc =>
    let (routine, pc) := pc.act s.routine
    { s with routine := routine, poller := .notifyTask pc }

section Step
variable [DecidableEq π]

def State.goto (s : State π) (p : π) (pc : Processor.Pc) : State π :=
  { s with processors := Function.update s.processors p pc }

def step (fd : Int) (s : State π) : Event π → Option (State π)
  | .process p now args =>
    match s.processors p with
    | .running =>
      (blockStep fd s args).map fun s' => s'.goto p (if s.block = .swapContext then .release else .running)
    | pc =>
      let (routine, pc) := pc.act s.routine now
      some ({ s with routine := routine }.goto p pc)
  | .poll choice => some (pollStep s choice)

/-- The coroutine has been created, and has yet to make its first call of `Block`. -/
def machine (π : Type u) [DecidableEq π] (fd : Int) : Machine (State π) (Event π) where
  init :=
    { isBlocking := false
      isRead := false
      response := 0
      result := false
      routine := .new 0
      block := .start
      request := none
      pending := false
      armed := false
      answered := false
      poller := .takeParams
      processors := fun _ => .acquire }
  step := step fd

end Step

def State.Suspended (s : State π) : Prop :=
  ∀ p, s.processors p ≠ .running

/-- The response has been delivered, and the coroutine is left waiting for it. -/
def State.Lost (s : State π) : Prop :=
  s.answered = true ∧ ¬ s.poller.InCallback ∧ s.isBlocking = true ∧ s.Suspended ∧ s.routine.state = .ioWait ∧
    ¬ s.routine.UpdatePending

/-- `ResponseCallback` does not read the state of the coroutine between its `Register` and its `IO_WAIT`. -/
def InTime (s : State π) : Event π → Prop
  | .process .. => True
  | .poll _ => s.poller = .readState → s.block ≠ .setIoWait

instance (s : State π) (e : Event π) : Decidable (InTime s e) :=
  match e with
  | .process .. => inferInstanceAs (Decidable True)
  | .poll _ => inferInstanceAs (Decidable (_ → _))

/-- `ResponseCallback` has yet to read the state. -/
def PollerPc.Unread : PollerPc → Prop
  | .loadBlocking _ | .setResponse _ | .readState => True
  | _ => False

/-- `ResponseCallback` will set the update flag of a coroutine that waits. -/
def PollerPc.Notifying : PollerPc → Prop
  | .notifyTask .readDataWait | .notifyTask .readIoWait | .notifyTask .setUpdateFlag => True
  | pc => pc.Unread

structure Inv (s : State π) : Prop where
  stopped : s.block = .start → s.isBlocking = false
  blocking : s.block ≠ .start → s.isBlocking = true
  runs : s.block ≠ .start → s.block ≠ .readResponse → ∃ p, s.processors p = .running
  unread : s.answered = true → s.block = .setIoWait → s.poller.Unread
  /-- Somebody will look at the response. -/
  noticed : s.answered = true → s.block = .swapContext ∨ s.block = .readResponse →
    s.poller.Notifying ∨ s.routine.UpdatePending ∨ s.routine.state ≠ .ioWait

theorem PollerPc.Unread.notifying {pc : PollerPc} (unread : pc.Unread) : pc.Notifying := by
  cases pc <;> trivial

theorem PollerPc.Notifying.inCallback {pc : PollerPc} (notifying : pc.Notifying) : pc.InCallback := by
  cases pc <;> trivial

theorem Inv.no_loss {s : State π} (inv : Inv s) : ¬ s.Lost := by
  rintro ⟨answered, returned, blocking, suspended, waits, settled⟩
  have started : s.block ≠ .start := by
    intro start
    rw [inv.stopped start] at blocking
    cases blocking
  have stands : s.block = .readResponse := by
    by_contra moved
    obtain ⟨p, running⟩ := inv.runs started moved
    exact suspended p running
  rcases inv.noticed answered (.inr stands) with notifying | pending | ready
  · exact returned notifying.inCallback
  · exact settled pending
  · exact ready waits

/-- What a step of the poller leaves alone, and what it has to hand over. -/
theorem Inv.poll {s s' : State π} (inv : Inv s) (block : s'.block = s.block) (blocking : s'.isBlocking = s.isBlocking)
    (processors : s'.processors = s.processors)
    (unread : s'.answered = true → s.block = .setIoWait → s'.poller.Unread)
    (noticed : s'.answered = true → s.block = .swapContext ∨ s.block = .readResponse →
      s'.poller.Notifying ∨ s'.routine.UpdatePending ∨ s'.routine.state ≠ .ioWait) : Inv s' := by
  refine ⟨?_, ?_, ?_, ?_, ?_⟩
  · rw [block, blocking]
    exact inv.stopped
  · rw [block, blocking]
    exact inv.blocking
  · rw [block, processors]
    exact inv.runs
  · rw [block]
    exact unread
  · rw [block]
    exact noticed

/-- Outside of `ResponseCallback` the poller has nothing to hand over. -/
theorem Inv.outside {s s' : State π} (inv : Inv s) (quiet : ¬ s.poller.Notifying) (block : s'.block = s.block)
    (blocking : s'.isBlocking = s.isBlocking) (processors : s'.processors = s.processors)
    (answered : s'.answered = s.answered) (routine : s'.routine = s.routine) : Inv s' := by
  refine inv.poll block blocking processors ?_ ?_ <;> rw [answered]
  · intro was stands
    exact absurd (inv.unread was stands).notifying quiet
  · rw [routine]
    intro was stands
    exact .inr ((inv.noticed was stands).resolve_left quiet)

theorem step_collect {s : State π} (inv : Inv s) {choice : PollChoice} {ready : Option UInt32}
    (atPc : s.poller = .collect ready) : Inv (pollStep s choice) := by
  have quiet : ¬ s.poller.Notifying := by rw [atPc]; exact id
  simp only [pollStep, atPc]
  split
  · split <;> exact inv.outside quiet rfl rfl rfl rfl rfl
  · exact inv.outside quiet rfl rfl rfl rfl rfl

theorem step_notifyTask {s : State π} (inv : Inv s) {choice : PollChoice} {pc : NotifyPc}
    (atPc : s.poller = .notifyTask pc) : Inv (pollStep s choice) := by
  have read : s.answered = true → s.block ≠ .setIoWait := by
    intro answered stands
    have unread := inv.unread answered stands
    rw [atPc] at unread
    exact unread
  have handOver {routine : CRoutine} {pc' : NotifyPc}
      (handed : (PollerPc.notifyTask pc').Notifying ∨ routine.UpdatePending ∨ routine.state ≠ .ioWait) :
      Inv { s with routine := routine, poller := .notifyTask pc' } :=
    inv.poll rfl rfl rfl (fun answered stands => absurd stands (read answered)) fun _ _ => handed
  cases pc with
  | readDataWait =>
    simp only [pollStep, atPc, NotifyPc.act]
    apply handOver
    split <;> exact .inl trivial
  | readIoWait =>
    simp only [pollStep, atPc, NotifyPc.act]
    apply handOver
    by_cases waits : s.routine.state = .ioWait
    · rw [if_pos waits]
      exact .inl trivial
    · exact .inr (.inr waits)
  | setUpdateFlag =>
    simp only [pollStep, atPc, NotifyPc.act]
    exact handOver (.inr (.inl rfl))
  | notify =>
    simp only [pollStep, atPc]
    exact inv.outside (by rw [atPc]; exact id) rfl rfl rfl rfl rfl

theorem step_poll {s : State π} (inv : Inv s) {choice : PollChoice} (inTime : InTime s (.poll choice)) :
    Inv (pollStep s choice) := by
  cases atPc : s.poller with
  | takeParams | epollCtl =>
    simp only [pollStep, atPc]
    exact inv.outside (by rw [atPc]; exact id) rfl rfl rfl rfl rfl
  | epollWait =>
    simp only [pollStep, atPc]
    split <;> exact inv.outside (by rw [atPc]; exact id) rfl rfl rfl rfl rfl
  | collect ready => exact step_collect inv atPc
  | deliver response =>
    simp only [pollStep, atPc]
    split
    · exact inv.outside (by rw [atPc]; exact id) rfl rfl rfl rfl rfl
    · exact inv.poll rfl rfl rfl (fun _ _ => trivial) fun _ _ => .inl trivial
  | loadBlocking response =>
    simp only [pollStep, atPc]
    split
    · exact inv.poll rfl rfl rfl (fun _ _ => trivial) fun _ _ => .inl trivial
    · rename_i stopped
      have start : s.block = .start := not_not.mp fun moved => stopped (inv.blocking moved)
      refine inv.poll rfl rfl rfl ?_ ?_ <;> rw [start]
      · exact nofun
      · rintro _ (wrong | wrong) <;> cases wrong
  | setResponse response =>
    simp only [pollStep, atPc]
    exact inv.poll rfl rfl rfl (fun _ _ => trivial) fun _ _ => .inl trivial
  | readState =>
    simp only [pollStep, atPc]
    refine inv.poll rfl rfl rfl (fun _ stands => absurd stands (inTime atPc)) fun _ _ => ?_
    by_cases waits : s.routine.state = .ioWait
    · rw [if_pos waits]
      exact .inl trivial
    · exact .inr (.inr waits)
  | notifyTask pc => exact step_notifyTask inv atPc

/-- A step of the coroutine, which stands in `Block` and runs on a processor before and after it. -/
theorem step_block {fd : Int} {s s' : State π} (inv : Inv s) {p : π} {args : BlockArgs}
    (running : s.processors p = .running) (stepped : blockStep fd s args = some s') :
    Inv s' ∧ s'.processors = s.processors ∧ (s.block = .swapContext → s'.block = .readResponse) := by
  have runs : ∃ p, s.processors p = .running := ⟨p, running⟩
  cases stands : s.block with
  | start =>
    have stopped := inv.stopped stands
    simp only [blockStep, stands, stopped] at stepped
    split at stepped
    · cases stepped
      refine ⟨⟨fun _ => rfl, fun moved => absurd rfl moved, fun moved => absurd rfl moved, nofun, ?_⟩, rfl, nofun⟩
      rintro _ (wrong | wrong) <;> cases wrong
    · cases stepped
      refine ⟨⟨nofun, fun _ => rfl, fun _ _ => runs, nofun, ?_⟩, rfl, nofun⟩
      rintro _ (wrong | wrong) <;> cases wrong
  | register timeoutMs =>
    have blocking := inv.blocking (by rw [stands]; exact nofun)
    simp only [blockStep, stands] at stepped
    split at stepped
    · cases stepped
    · cases stepped
      exact ⟨⟨nofun, fun _ => blocking, fun _ _ => runs, nofun, nofun⟩, rfl, nofun⟩
  | setIoWait =>
    have blocking := inv.blocking (by rw [stands]; exact nofun)
    simp only [blockStep, stands] at stepped
    cases stepped
    refine ⟨⟨nofun, fun _ => blocking, fun _ _ => runs, nofun, fun answered _ => ?_⟩, rfl, nofun⟩
    exact .inl (inv.unread answered stands).notifying
  | swapContext =>
    have blocking := inv.blocking (by rw [stands]; exact nofun)
    simp only [blockStep, stands] at stepped
    cases stepped
    refine ⟨⟨nofun, fun _ => blocking, fun _ _ => runs, nofun, fun answered _ => ?_⟩, rfl, fun _ => rfl⟩
    exact inv.noticed answered (.inl stands)
  | readResponse =>
    have blocking := inv.blocking (by rw [stands]; exact nofun)
    simp only [blockStep, stands] at stepped
    cases stepped
    refine ⟨⟨nofun, fun _ => blocking, fun _ _ => runs, nofun, ?_⟩, rfl, nofun⟩
    rintro _ (wrong | wrong) <;> cases wrong
  | stopBlocking =>
    simp only [blockStep, stands] at stepped
    cases stepped
    refine ⟨⟨fun _ => rfl, fun moved => absurd rfl moved, fun _ _ => runs, nofun, ?_⟩, rfl, nofun⟩
    rintro _ (wrong | wrong) <;> cases wrong

variable [DecidableEq π]

theorem Inv.goto {s : State π} (inv : Inv s) {p : π} {pc : Processor.Pc}
    (stays : s.block ≠ .start → s.block ≠ .readResponse → s.processors p = .running → pc = .running) :
    Inv (s.goto p pc) where
  stopped := inv.stopped
  blocking := inv.blocking
  runs := by
    intro started moved
    obtain ⟨q, running⟩ := inv.runs started moved
    refine ⟨q, ?_⟩
    by_cases same : q = p
    · subst same
      simpa only [State.goto, Function.update_self] using stays started moved running
    · simpa only [State.goto, Function.update_of_ne same] using running
  unread := inv.unread
  noticed := inv.noticed

theorem step_process {fd : Int} {s s' : State π} (inv : Inv s) {p : π} {now : Nat} {args : BlockArgs}
    (stepped : step fd s (.process p now args) = some s') : Inv s' := by
  simp only [step] at stepped
  split at stepped
  · rename_i running
    obtain ⟨after, moved, rfl⟩ := Option.map_eq_some_iff.mp stepped
    obtain ⟨kept, -, swapped⟩ := step_block inv running moved
    refine kept.goto fun _ moved _ => ?_
    rw [if_neg fun swaps => moved (swapped swaps)]
  · rename_i stopped
    cases stepped
    have kept : Inv { s with routine := ((s.processors p).act s.routine now).1 } := by
      refine inv.poll rfl rfl rfl inv.unread fun answered stands => ?_
      by_cases waits : ((s.processors p).act s.routine now).1.state = .ioWait
      · obtain ⟨sameState, sameFlag⟩ := Processor.Pc.act_waiting (.inr waits)
        simp only [CRoutine.UpdatePending, sameState, sameFlag]
        exact inv.noticed answered stands
      · exact .inr (.inr waits)
    exact kept.goto fun _ _ running => absurd running stopped

theorem inv_init (fd : Int) : Inv (machine π fd).init where
  stopped := fun _ => rfl
  blocking := fun moved => absurd rfl moved
  runs := fun moved => absurd rfl moved
  unread := nofun
  noticed := nofun

/-- No I/O wake-up is lost in a run in which the callback never reads the state too early. -/
theorem io_wakeup_not_lost {fd : Int} {s : State π} (reach : (machine π fd).ReachWhen InTime s) : ¬ s.Lost := by
  have inv : Inv s := reach.invariant (inv_init fd) fun s e s' inv inTime stepped => by
    cases e with
    | process p now args => exact step_process inv stepped
    | poll choice =>
      cases stepped
      exact step_poll inv inTime
  exact inv.no_loss

/-- The descriptor is ready after the coroutine has been suspended. -/
def readyLate : List (Event Unit) :=
  [.process () 0 ⟨100, true⟩, .process () 0 ⟨100, true⟩, .process () 0 ⟨100, true⟩, .process () 0 ⟨100, true⟩,
    .process () 0 ⟨100, true⟩, .process () 0 ⟨100, true⟩, .process () 0 ⟨100, true⟩, .poll ⟨none, 0⟩, .poll ⟨none, 0⟩,
    .poll ⟨some 1, 0⟩, .poll ⟨none, 0⟩, .poll ⟨none, 0⟩, .poll ⟨none, 0⟩, .poll ⟨none, 0⟩, .poll ⟨none, 0⟩,
    .poll ⟨none, 0⟩, .poll ⟨none, 0⟩, .poll ⟨none, 0⟩, .poll ⟨none, 0⟩]

theorem readyLate_not_lost :
    let s := (machine Unit 5).stateAt readyLate 19
    ¬ s.Lost ∧ s.answered = true ∧ ¬ s.poller.InCallback ∧ s.isBlocking = true ∧ s.routine.state = .ioWait ∧
      s.routine.UpdatePending := by
  have reach : (machine Unit 5).ReachWhen InTime ((machine Unit 5).stateAt readyLate 19) :=
    Machine.stateAt_reachWhen readyLate (by decide) rfl
  exact ⟨io_wakeup_not_lost reach, by decide, by decide, by decide, by decide, by decide⟩

/-- The descriptor is ready at once, and the response is delivered before the coroutine waits for it. -/
def readyEarly : List (Event Unit) :=
  [.process () 0 ⟨100, true⟩, .process () 0 ⟨100, true⟩, .process () 0 ⟨100, true⟩, .process () 0 ⟨100, true⟩,
    .process () 0 ⟨100, true⟩, .poll ⟨none, 0⟩, .poll ⟨none, 0⟩, .poll ⟨some 1, 0⟩, .poll ⟨none, 0⟩, .poll ⟨none, 0⟩,
    .poll ⟨none, 0⟩, .poll ⟨none, 0⟩, .poll ⟨none, 0⟩, .process () 0 ⟨100, true⟩, .process () 0 ⟨100, true⟩]

theorem readyEarly_lost :
    let s := (machine Unit 5).stateAt readyEarly 15
    (machine Unit 5).Reach s ∧ s.Lost ∧ s.response = epollIn ∧ s.request.map PollRequest.timeoutMs = some (-1) := by
  refine ⟨Machine.stateAt_reach (M := machine Unit 5) readyEarly rfl,
    ⟨rfl, by decide, rfl, ?_, rfl, by decide⟩, rfl, rfl⟩
  exact fun _ => nofun

end CyberRT.PollHandler

import CyberRT.Lib.Machine
import CyberRT.Lib.Table

namespace CyberRT.Poller
open Concur
universe u

structure PollRequest (κ : Type u) where
  fd : Int
  events : UInt32
  timeoutMs : Int
  callback : Option κ

inductive EpollOp
  | add
  | mod
  | del
  deriving DecidableEq

structure PollCtrlParam where
  operation : EpollOp
  fd : Int
  events : UInt32
  deriving DecidableEq

/-- What the interest list has for a descriptor after an operation on it; one that fails changes nothing. -/
def EpollOp.apply (op : EpollOp) (events : UInt32) (present : Option UInt32) : Option UInt32 :=
  match op, present with
  | .add, none => some events
  | .add, some old => some old
  | .mod, none => none
  | .mod, some _ => some events
  | .del, _ => none

/-- `epoll_ctl`: whether it succeeds, and the interest list. -/
def epollCtl (interest : Table Int UInt32) (param : PollCtrlParam) : Bool × Table Int UInt32 :=
  match param.operation with
  | .add => if param.fd ∈ interest then (false, interest) else (true, interest.insert param.fd param.events)
  | .mod => if param.fd ∈ interest then (true, interest.insert param.fd param.events) else (false, interest)
  | .del => if param.fd ∈ interest then (true, interest.erase param.fd) else (false, interest)

theorem epollCtl_lookup (interest : Table Int UInt32) (param : PollCtrlParam) (fd : Int) :
    (epollCtl interest param).2.lookup fd =
      if fd = param.fd then param.operation.apply param.events (interest.lookup param.fd) else interest.lookup fd := by
  unfold epollCtl
  by_cases present : param.fd ∈ interest
  · obtain ⟨old, found⟩ := Table.mem_iff_lookup.mp present
    cases op : param.operation with
    | add =>
      simp only [present, if_true, EpollOp.apply, found]
      split
      · rename_i same
        rw [same, found]
      · rfl
    | mod => simp only [present, if_true, EpollOp.apply, found, Table.lookup_insert_eq]
    | del => simp only [present, if_true, EpollOp.apply, Table.lookup_erase_eq]
  · have absent := AList.lookup_eq_none.mpr present
    cases op : param.operation with
    | add => simp only [present, if_false, EpollOp.apply, absent, Table.lookup_insert_eq]
    | mod | del =>
      simp only [present, if_false, EpollOp.apply, absent]
      split
      · rename_i same
        rw [same, absent]
      · rfl

/-- The tables of the poller with the `local_params` of a running `HandleChanges`, and the interest list that
the kernel keeps for its epoll descriptor. -/
structure State (κ : Type u) where
  requests : Table Int (PollRequest κ)
  ctrlParams : Table Int PollCtrlParam
  handling : Option (Table Int PollCtrlParam)
  interest : Table Int UInt32

variable {κ : Type u}

/-- `fd` and `callback` pass the checks of `Register` and `Unregister`. -/
def PollRequest.Valid (req : PollRequest κ) : Prop :=
  0 ≤ req.fd ∧ req.callback.isSome

instance (req : PollRequest κ) : Decidable req.Valid :=
  inferInstanceAs (Decidable (_ ∧ _))

/-- `Register` with its locked region; what it returns, and the tables. -/
def register (s : State κ) (req : PollRequest κ) : Bool × State κ :=
  if req.Valid then
    let operation := if req.fd ∈ s.requests then EpollOp.mod else EpollOp.add
    (true, { s with
      requests := s.requests.insert req.fd req
      ctrlParams := s.ctrlParams.insert req.fd ⟨operation, req.fd, req.events⟩ })
  else (false, s)

/-- The event of a deletion is never read. -/
def unregister (s : State κ) (req : PollRequest κ) : Bool × State κ :=
  if req.Valid then
    if req.fd ∈ s.requests then
      (true, { s with
        requests := s.requests.erase req.fd
        ctrlParams := s.ctrlParams.insert req.fd ⟨.del, req.fd, 0⟩ })
    else (false, s)
  else (false, s)

/-- The locked region of `HandleChanges`. -/
def takeParams (s : State κ) : State κ :=
  if s.ctrlParams.entries.isEmpty then s else { s with ctrlParams := ∅, handling := some s.ctrlParams }

/-- The steps of any number of callers and of the thread of the poller. The loop of `HandleChanges` runs through
its unordered map in any order. -/
inductive Event (κ : Type u)
  | register (req : PollRequest κ)
  | unregister (req : PollRequest κ)
  | takeParams
  | epollCtl (fd : Int)
  | handled

def step (s : State κ) : Event κ → Option (State κ)
  | .register req => some (register s req).2
  | .unregister req => some (unregister s req).2
  | .takeParams =>
    match s.handling with
    | none => some (takeParams s)
    | some _ => none
  | .epollCtl fd =>
    match s.handling with
    | none => none
    | some params => (params.lookup fd).map fun param =>
        { s with handling := some (params.erase fd), interest := (epollCtl s.interest param).2 }
  | .handled =>
    match s.handling with
    | none => none
    | some params => if params.entries.isEmpty then some { s with handling := none } else none

def epollIn : UInt32 := 1

/-- `Init` has put the pipe by which `Notify` wakes the poller into both tables. -/
def machine (pipeFd : Int) (drainPipe : κ) : Machine (State κ) (Event κ) where
  init :=
    { requests := (∅ : Table Int (PollRequest κ)).insert pipeFd ⟨pipeFd, epollIn, -1, some drainPipe⟩
      ctrlParams := (∅ : Table Int PollCtrlParam).insert pipeFd ⟨.add, pipeFd, epollIn⟩
      handling := none
      interest := ∅ }
  step := step

/-- What the entry of a table of operations, if there is one, makes of what the interest list has for `fd`. -/
def applied (params : Table Int PollCtrlParam) (fd : Int) (present : Option UInt32) : Option UInt32 :=
  match params.lookup fd with
  | none => present
  | some param => param.operation.apply param.events present

/-- What the kernel has for `fd` once the operations that `HandleChanges` has taken are done. -/
def State.taken (s : State κ) (fd : Int) : Option UInt32 :=
  applied (s.handling.getD ∅) fd (s.interest.lookup fd)

/-- What the kernel has for `fd` once all operations are done. -/
def State.settled (s : State κ) (fd : Int) : Option UInt32 :=
  applied s.ctrlParams fd (s.taken fd)

/-- The events of the latest accepted request for `fd`. -/
def State.wanted (s : State κ) (fd : Int) : Option UInt32 :=
  (s.requests.lookup fd).map PollRequest.events

/-- A request is accepted in order: its descriptor is in the table of requests if and only if the kernel has
it, or the kernel has it with the same events. -/
def InOrder (s : State κ) : Event κ → Prop
  | .register req =>
    req.Valid → ((req.fd ∈ s.requests ↔ (s.taken req.fd).isSome) ∨ s.taken req.fd = some req.events)
  | _ => True

instance (s : State κ) (e : Event κ) : Decidable (InOrder s e) :=
  match e with
  | .register _ => inferInstanceAs (Decidable (_ → (_ ↔ _) ∨ _))
  | .unregister _ | .takeParams | .epollCtl _ | .handled => inferInstanceAs (Decidable True)

/-- Operations stand at the descriptor they are for. -/
def Keyed (params : Table Int PollCtrlParam) : Prop :=
  ∀ fd param, params.lookup fd = some param → param.fd = fd

structure Inv (s : State κ) : Prop where
  pending : Keyed s.ctrlParams
  taken : Keyed (s.handling.getD ∅)
  agrees : ∀ fd, s.settled fd = s.wanted fd

theorem keyed_empty : Keyed ∅ := nofun

theorem keyed_insert {params : Table Int PollCtrlParam} (keyed : Keyed params) (param : PollCtrlParam) :
    Keyed (params.insert param.fd param) := by
  intro fd found
  rw [Table.lookup_insert_eq]
  split
  · rename_i same
    rintro ⟨rfl⟩
    exact same.symm
  · exact keyed fd found

theorem keyed_erase {params : Table Int PollCtrlParam} (keyed : Keyed params) (gone : Int) :
    Keyed (params.erase gone) := by
  intro fd found
  rw [Table.lookup_erase_eq]
  split
  · exact nofun
  · exact keyed fd found

theorem applied_empty (fd : Int) (present : Option UInt32) : applied ∅ fd present = present := rfl

theorem applied_insert (params : Table Int PollCtrlParam) (param : PollCtrlParam) (fd : Int) (present : Option UInt32) :
    applied (params.insert param.fd param) fd present =
      if fd = param.fd then param.operation.apply param.events present else applied params fd present := by
  unfold applied
  by_cases same : fd = param.fd
  · simp only [Table.lookup_insert_eq, same, if_true]
  · simp only [Table.lookup_insert_eq, same, if_false]

theorem wanted_insert (requests : Table Int (PollRequest κ)) (req : PollRequest κ) (fd : Int) :
    ((requests.insert req.fd req).lookup fd).map PollRequest.events =
      if fd = req.fd then some req.events else (requests.lookup fd).map PollRequest.events := by
  rw [Table.lookup_insert_eq]
  split <;> rfl

/-- The operation that `Register` chooses has the effect it asks for, if and only if it comes in order. -/
theorem apply_eq_some_iff {known : Prop} [Decidable known] {events : UInt32} {present : Option UInt32} :
    (if known then EpollOp.mod else EpollOp.add).apply events present = some events ↔
      ((known ↔ present.isSome) ∨ present = some events) := by
  by_cases isKnown : known <;> cases present <;> simp [isKnown, EpollOp.apply]

/-- What a `Register` makes of what the kernel has is what it asks for, if and only if it comes in order. -/
theorem register_settled_iff {s : State κ} (agrees : ∀ fd, s.settled fd = s.wanted fd) (req : PollRequest κ) :
    (∀ fd, (register s req).2.settled fd = (register s req).2.wanted fd) ↔ InOrder s (.register req) := by
  unfold register InOrder
  by_cases valid : req.Valid
  · have settles (op : EpollOp) (fd : Int) := applied_insert s.ctrlParams ⟨op, req.fd, req.events⟩ fd (s.taken fd)
    have wants := wanted_insert s.requests req
    simp only [valid, if_true, true_implies, ← apply_eq_some_iff]
    constructor
    · intro all
      have own := (settles _ req.fd).symm.trans ((all req.fd).trans (wants req.fd))
      simpa only [if_true] using own
    · intro works fd
      refine (settles _ fd).trans (.trans ?_ (wants fd).symm)
      by_cases same : fd = req.fd
      · subst same
        simpa only [if_true] using works
      · simp only [same, if_false]
        exact agrees fd
  · simp only [valid, if_false, false_implies, iff_true]
    exact agrees

theorem unregister_settled {s : State κ} (agrees : ∀ fd, s.settled fd = s.wanted fd) (req : PollRequest κ) (fd : Int) :
    (unregister s req).2.settled fd = (unregister s req).2.wanted fd := by
  unfold unregister
  split
  · split
    · refine (applied_insert s.ctrlParams ⟨.del, req.fd, 0⟩ fd (s.taken fd)).trans ?_
      simp only [State.wanted, Table.lookup_erase_eq]
      split
      · rfl
      · exact agrees fd
    · exact agrees fd
  · exact agrees fd

theorem takeParams_inv {s : State κ} (inv : Inv s) (idle : s.handling = none) : Inv (takeParams s) := by
  unfold takeParams
  split
  · exact inv
  · refine ⟨keyed_empty, inv.pending, fun fd => ?_⟩
    have before := inv.agrees fd
    simp only [State.settled, State.taken, idle, Option.getD_none, applied_empty] at before
    exact before

/-- An operation that the kernel has executed is no longer to be done. -/
theorem epollCtl_inv {s : State κ} (inv : Inv s) {params : Table Int PollCtrlParam} {fd : Int} {param : PollCtrlParam}
    (handling : s.handling = some params) (found : params.lookup fd = some param) :
    Inv { s with handling := some (params.erase fd), interest := (epollCtl s.interest param).2 } := by
  have keyed : Keyed params := by simpa only [handling, Option.getD_some] using inv.taken
  refine ⟨inv.pending, keyed_erase keyed fd, fun other => ?_⟩
  have same := keyed fd param found
  have taken : applied (params.erase fd) other ((epollCtl s.interest param).2.lookup other) =
      applied params other (s.interest.lookup other) := by
    rw [epollCtl_lookup, same]
    by_cases here : other = fd
    · subst here
      simp only [applied, AList.lookup_erase, if_true, found]
    · simp only [applied, AList.lookup_erase_ne here, if_neg here]
  have before := inv.agrees other
  simp only [State.settled, State.taken, handling, Option.getD_some] at before
  simp only [State.settled, State.taken, Option.getD_some, taken]
  exact before

theorem step_inv {s s' : State κ} {e : Event κ} (inv : Inv s) (inOrder : InOrder s e) (stepped : step s e = some s') :
    Inv s' := by
  cases e with
  | register req =>
    cases stepped
    have agrees := (register_settled_iff inv.agrees req).mpr inOrder
    refine ⟨?_, ?_, agrees⟩
    · unfold register
      split
      · exact keyed_insert inv.pending ⟨_, req.fd, req.events⟩
      · exact inv.pending
    · unfold register
      split <;> exact inv.taken
  | unregister req =>
    cases stepped
    refine ⟨?_, ?_, unregister_settled inv.agrees req⟩
    · unfold unregister
      split
      · split
        · exact keyed_insert inv.pending ⟨.del, req.fd, 0⟩
        · exact inv.pending
      · exact inv.pending
    · unfold unregister
      split
      · split <;> exact inv.taken
      · exact inv.taken
  | takeParams =>
    simp only [step] at stepped
    split at stepped
    · rename_i idle
      cases stepped
      exact takeParams_inv inv idle
    · cases stepped
  | epollCtl fd =>
    simp only [step] at stepped
    split at stepped
    · cases stepped
    · rename_i params handling
      obtain ⟨param, found, rfl⟩ := Option.map_eq_some_iff.mp stepped
      exact epollCtl_inv inv handling found
  | handled =>
    simp only [step] at stepped
    split at stepped
    · cases stepped
    · rename_i params handling
      split at stepped
      · rename_i done
        cases stepped
        have empty : params = ∅ := AList.ext (List.isEmpty_iff.mp done)
        have agrees := inv.agrees
        simp only [State.settled, State.taken, handling, Option.getD_some, empty] at agrees
        exact ⟨inv.pending, keyed_empty, agrees⟩
      · cases stepped

theorem inv_init (pipeFd : Int) (drainPipe : κ) : Inv (machine pipeFd drainPipe).init where
  pending := keyed_insert keyed_empty ⟨.add, pipeFd, epollIn⟩
  taken := keyed_empty
  agrees := by
    intro fd
    refine (applied_insert ∅ ⟨.add, pipeFd, epollIn⟩ fd none).trans ?_
    exact (wanted_insert ∅ ⟨pipeFd, epollIn, -1, some drainPipe⟩ fd).symm

/-- The interest list follows the table of requests: whenever no operation is pending or being executed, it has
exactly the descriptors of the table, each with the events of its latest accepted request. -/
theorem interest_follows {pipeFd : Int} {drainPipe : κ} {s : State κ}
    (reach : (machine pipeFd drainPipe).ReachWhen InOrder s) (nonePending : s.ctrlParams = ∅)
    (idle : s.handling = none) (fd : Int) :
    s.interest.lookup fd = (s.requests.lookup fd).map PollRequest.events := by
  have inv : Inv s := reach.invariant (inv_init pipeFd drainPipe) fun _ _ _ => step_inv
  have agrees := inv.agrees fd
  simp only [State.settled, State.taken, nonePending, idle, Option.getD_none, applied_empty] at agrees
  exact agrees

/-- A request, a change of it and its end, each handled before the next. -/
def handledBetween : List (Event Unit) :=
  [.takeParams, .register ⟨5, 1, -1, some ()⟩, .epollCtl 3, .handled, .takeParams, .epollCtl 5, .handled,
    .register ⟨5, 4, -1, some ()⟩, .takeParams, .epollCtl 5, .handled]

theorem handledBetween_follows :
    let s := (machine 3 ()).stateAt handledBetween 11
    s.ctrlParams = ∅ ∧ s.handling = none ∧ s.interest.lookup 5 = some 4 ∧
      s.interest.lookup 5 = (s.requests.lookup 5).map PollRequest.events := by
  have reach : (machine 3 ()).ReachWhen InOrder ((machine 3 ()).stateAt handledBetween 11) :=
    Machine.stateAt_reachWhen handledBetween (by decide) rfl
  exact ⟨rfl, rfl, rfl, interest_follows reach rfl rfl 5⟩

/-- The second of two requests replaces the operation of the first, which the kernel has not seen. -/
def registeredTwice : List (Event Unit) :=
  [.register ⟨5, 1, -1, some ()⟩, .register ⟨5, 4, -1, some ()⟩, .takeParams, .epollCtl 3, .epollCtl 5, .handled]

theorem registeredTwice_missing :
    let s := (machine 3 ()).stateAt registeredTwice 6
    (machine 3 ()).Reach s ∧ s.ctrlParams = ∅ ∧ s.handling = none ∧ 5 ∈ s.requests ∧ 5 ∉ s.interest :=
  ⟨Machine.stateAt_reach (M := machine 3 ()) registeredTwice rfl, rfl, rfl, by decide, by decide⟩

end CyberRT.Poller

import CyberRT.Lib.Machine
import CyberRT.Scheduler.NotifyProcessor

namespace CyberRT.ClassicContext
open Concur
universe u v w

def maxPrio : Nat := 20

variable {γ : Type u} {κ : Type v} {ν : Type w}

/-- The coroutines of a group in the order in which `NextRoutine` looks at them: the run queues from the
highest priority down. -/
def scanOrder (multiPriRq : Nat → List γ) : List γ :=
  (List.range maxPrio).reverse.flatMap multiPriRq

/-- What the processors of a group share: its coroutines, and its count of notifications. -/
structure Shared (γ : Type u) where
  routines : γ → CRoutine
  notifyGrp : Nat

/-- Where a processor stands in `Processor::Run`: in `NextRoutine` with the coroutines it has yet to look at,
with a coroutine to resume, or in `Wait`. -/
inductive ProcessorPc (γ : Type u)
  | acquire (rest : List γ)
  | updateState (cr : γ) (rest : List γ)
  | skip (cr : γ) (rest : List γ)
  | resume (cr : γ)
  | running (cr : γ)
  | release (cr : γ)
  | wait
  | blocked
  deriving DecidableEq

/-- What a processor does next. A coroutine that runs sets its state and swaps its context out as it likes;
a processor in `wait_for` may wake up, and is late after a second. -/
inductive Action
  | next (now : Nat)
  | setState (state : RoutineState) (wakeTime : Nat)
  | swapContext
  | timeout

/-- `Wait` returns and the scan starts over. -/
def Shared.woken (r : Shared γ) : Shared γ :=
  { r with notifyGrp := r.notifyGrp - 1 }

variable [DecidableEq γ]

def Shared.set (r : Shared γ) (cr : γ) (routine : CRoutine) : Shared γ :=
  { r with routines := Function.update r.routines cr routine }

def act (queue : List γ) (r : Shared γ) : ProcessorPc γ → Action → Option (Shared γ × ProcessorPc γ)
  | .acquire [], .next _ => some (r, .wait)
  | .acquire (cr :: rest), .next _ =>
    let (free, routine) := (r.routines cr).acquire
    some (r.set cr routine, if free then .updateState cr rest else .acquire rest)
  | .updateState cr rest, .next now =>
    let routine := (r.routines cr).updateState now
    some (r.set cr routine, if routine.state = RoutineState.ready then .resume cr else .skip cr rest)
  | .skip cr rest, .next _ => some (r.set cr (r.routines cr).release, .acquire rest)
  | .resume cr, .next _ =>
    let (switched, routine) := (r.routines cr).resume
    some (r.set cr routine, if switched then .running cr else .release cr)
  | .running cr, .setState state wakeTime =>
    some (r.set cr { r.routines cr with state := state, wakeTime := wakeTime }, .running cr)
  | .running cr, .swapContext => some (r, .release cr)
  | .release cr, .next _ => some (r.set cr (r.routines cr).release, .acquire queue)
  | .wait, .next _ => some (if 0 < r.notifyGrp then (r.woken, .acquire queue) else (r, .blocked))
  | .blocked, .next _ => some (if 0 < r.notifyGrp then (r.woken, .acquire queue) else (r, .blocked))
  | .blocked, .timeout => some (if 0 < r.notifyGrp then r.woken else r, .acquire queue)
  | _, _ => none

/-- A group with any number of processors, and any number of threads in `NotifyProcessor` for one of its
coroutines. -/
structure State (γ : Type u) (κ : Type v) (ν : Type w) where
  shared : Shared γ
  processors : κ → ProcessorPc γ
  notifiers : ν → Option (γ × NotifyPc)

inductive Event (γ : Type u) (κ : Type v) (ν : Type w)
  | process (p : κ) (action : Action)
  | call (n : ν) (cr : γ)
  | notify (n : ν)

variable [DecidableEq κ] [DecidableEq ν]

def step (queue : List γ) (s : State γ κ ν) : Event γ κ ν → Option (State γ κ ν)
  | .process p action =>
    (act queue s.shared (s.processors p) action).map fun (shared, pc) =>
      { s with shared := shared, processors := Function.update s.processors p pc }
  | .call n cr =>
    match s.notifiers n with
    | none => some { s with notifiers := Function.update s.notifiers n (some (cr, .readDataWait)) }
    | some _ => none
  | .notify n =>
    match s.notifiers n with
    | none => none
    | some (_, .notify) =>
      some { s with shared := { s.shared with notifyGrp := s.shared.notifyGrp + 1 }
                    notifiers := Function.update s.notifiers n none }
    | some (cr, pc) =>
      let (routine, pc) := pc.act (s.shared.routines cr)
      some { s with shared := s.shared.set cr routine, notifiers := Function.update s.notifiers n (some (cr, pc)) }

/-- The coroutines of the run queues have been created, and every processor starts its first scan. -/
def machine (κ : Type v) (ν : Type w) [DecidableEq κ] [DecidableEq ν] (multiPriRq : Nat → List γ) :
    Machine (State γ κ ν) (Event γ κ ν) where
  init := ⟨⟨fun _ => .new 0, 0⟩, fun _ => .acquire (scanOrder multiPriRq), fun _ => none⟩
  step := step (scanOrder multiPriRq)

/-- No notifier is in flight, every processor is blocked in `Wait`, and a queued coroutine is waiting for an
update that is pending. -/
def State.Lost (queue : List γ) (s : State γ κ ν) : Prop :=
  (∀ n, s.notifiers n = none) ∧ (∀ p, s.processors p = .blocked) ∧ s.shared.notifyGrp = 0 ∧
    ∃ cr ∈ queue, (s.shared.routines cr).Waiting ∧ (s.shared.routines cr).UpdatePending

end CyberRT.ClassicContext

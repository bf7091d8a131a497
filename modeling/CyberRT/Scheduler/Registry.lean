import CyberRT.Lib.Flags
import CyberRT.Scheduler.Scheduler

namespace CyberRT.Scheduler
open Concur
variable {ρ π τ : Type}

def Answer.id (setup : Setup ρ π) : Answer ρ → Nat
  | .dispatched cr _ | .removed cr => setup.id cr
  | .notRemoved crid | .threw crid => crid

/-- The number of the coroutine on which a thread has called. -/
def CallerPc.id (setup : Setup ρ π) : CallerPc ρ → Option Nat
  | .idle => none
  | .getMutex call | .createMutex call | .lockMutex call _ => some (call.id setup)
  | .assign cr _ | .register cr _ | .place cr _ | .enqueue cr _ _ | .search cr _ _ | .acquire cr _ _ _
  | .erase cr _ _ _ | .release cr _ _ _ | .unlockQueue cr _ _ => some (setup.id cr)
  | .unregister crid _ => some crid
  | .answer reply _ => some (reply.id setup)

/-- The wrapper whose mutex a thread has locked. -/
def CallerPc.holds : CallerPc ρ → Option Nat
  | .idle | .getMutex _ | .createMutex _ | .lockMutex _ _ => none
  | .assign _ w | .register _ w | .place _ w | .enqueue _ _ w | .unregister _ w | .search _ _ w | .acquire _ _ _ w
  | .erase _ _ _ w | .release _ _ _ w | .unlockQueue _ _ w | .answer _ w => some w

/-- The wrapper that a thread has got, whether or not it has locked its mutex. -/
def CallerPc.wrapper : CallerPc ρ → Option Nat
  | .lockMutex _ w => some w
  | pc => pc.holds

theorem CallerPc.wrapper_of_holds {pc : CallerPc ρ} {w : Nat} (holds : pc.holds = some w) : pc.wrapper = some w := by
  cases pc with
  | lockMutex => cases holds
  | _ => exact holds

@[simp] theorem Call.start_id (setup : Setup ρ π) (policy : Policy) (call : Call ρ) (w : Nat) :
    (call.start policy w).id setup = some (call.id setup) := by
  cases call with
  | dispatchTask cr => cases policy <;> rfl
  | removeCRoutine crid => rfl

@[simp] theorem Call.start_holds (policy : Policy) (call : Call ρ) (w : Nat) :
    (call.start policy w).holds = some w := by
  cases call with
  | dispatchTask cr => cases policy <;> rfl
  | removeCRoutine crid => rfl

/-- There is one mutex for each number that has been called on, and it excludes. -/
structure Mutexes (setup : Setup ρ π) (s : State ρ π τ) : Prop where
  fresh : ∀ c w, s.idMapMutex c = some w → w < s.wrappers
  apart : ∀ c d w, s.idMapMutex c = some w → s.idMapMutex d = some w → c = d
  known : ∀ t c w, (s.callers t).id setup = some c → (s.callers t).wrapper = some w → s.idMapMutex c = some w
  exclusive : Exclusive s.mutex fun t => (s.callers t).holds

/-- Two threads that have locked the mutex of one number are one thread. -/
theorem Mutexes.alone {setup : Setup ρ π} {s : State ρ π τ} (mutexes : Mutexes setup s) {t u : τ} {c w v : Nat}
    (first : (s.callers t).id setup = some c) (firstHolds : (s.callers t).holds = some w)
    (second : (s.callers u).id setup = some c) (secondHolds : (s.callers u).holds = some v) : t = u := by
  have mine := mutexes.known t c w first (CallerPc.wrapper_of_holds firstHolds)
  have other := mutexes.known u c v second (CallerPc.wrapper_of_holds secondHolds)
  rw [mine] at other
  cases other
  exact mutexes.exclusive.one t u w firstHolds secondHolds

section Step
variable [DecidableEq τ] {setup : Setup ρ π} {s s' : State ρ π τ} {t : τ} {pc : CallerPc ρ}

/-- A thread that goes on with the mutex it has, or without one. -/
theorem Mutexes.goes (mutexes : Mutexes setup s) (callers : s'.callers = Function.update s.callers t pc)
    (idMapMutex : s'.idMapMutex = s.idMapMutex) (wrappers : s'.wrappers = s.wrappers) (mutex : s'.mutex = s.mutex)
    (holds : pc.holds = (s.callers t).holds)
    (known : ∀ c w, pc.id setup = some c → pc.wrapper = some w → s.idMapMutex c = some w) : Mutexes setup s' where
  fresh := by
    rw [idMapMutex, wrappers]
    exact mutexes.fresh
  apart := by
    rw [idMapMutex]
    exact mutexes.apart
  known u := by
    rw [idMapMutex, callers]
    by_cases same : u = t
    · subst same
      rw [Function.update_self]
      exact known
    · rw [Function.update_of_ne same]
      exact mutexes.known u
  exclusive := by
    rw [callers, mutex]
    exact mutexes.exclusive.goes (fun _ => rfl) holds

/-- A thread inside a call keeps its mutex. -/
theorem Mutexes.within (mutexes : Mutexes setup s) (callers : s'.callers = Function.update s.callers t pc)
    (idMapMutex : s'.idMapMutex = s.idMapMutex) (wrappers : s'.wrappers = s.wrappers) (mutex : s'.mutex = s.mutex)
    (id : pc.id setup = (s.callers t).id setup) {w : Nat} (holds : pc.holds = some w)
    (held : (s.callers t).holds = some w) : Mutexes setup s' := by
  refine mutexes.goes callers idMapMutex wrappers mutex (holds.trans held.symm) fun c v named got => ?_
  rw [CallerPc.wrapper_of_holds holds] at got
  cases got
  exact mutexes.known t c w (id ▸ named) (CallerPc.wrapper_of_holds held)

/-- A new wrapper for a number that had none. -/
theorem Mutexes.created (mutexes : Mutexes setup s) {call : Call ρ} (here : s.callers t = .createMutex call)
    (unknown : s.idMapMutex (call.id setup) = none) :
    Mutexes setup ((s.createWrapper (call.id setup)).callerGoto t (.lockMutex call s.wrappers)) := by
  have entry : ∀ c w, Function.update s.idMapMutex (call.id setup) (some s.wrappers) c = some w →
      (c = call.id setup ∧ w = s.wrappers) ∨ (s.idMapMutex c = some w ∧ w < s.wrappers) := by
    intro c w known
    by_cases same : c = call.id setup
    · subst same
      rw [Function.update_self] at known
      exact .inl ⟨rfl, (Option.some.inj known).symm⟩
    · rw [Function.update_of_ne same] at known
      exact .inr ⟨known, mutexes.fresh c w known⟩
  constructor
  case fresh =>
    intro c w known
    rcases entry c w known with ⟨-, rfl⟩ | ⟨-, old⟩
    · exact Nat.lt_succ_self _
    · exact Nat.lt_succ_of_lt old
  case apart =>
    intro c d w first second
    rcases entry c w first with ⟨rfl, new⟩ | ⟨first, old⟩ <;> rcases entry d w second with ⟨rfl, new'⟩ | ⟨second, old'⟩
    · rfl
    · omega
    · omega
    · exact mutexes.apart c d w first second
  case known =>
    intro u c w named got
    by_cases same : u = t
    · subst same
      simp only [State.callerGoto, State.createWrapper, Function.update_self, CallerPc.id, CallerPc.wrapper,
        Option.some.injEq] at named got ⊢
      rw [← named, ← got, Function.update_self]
    · simp only [State.callerGoto, State.createWrapper, Function.update_of_ne same] at named got ⊢
      have known := mutexes.known u c w named got
      rw [Function.update_of_ne]
      · exact known
      · rintro rfl
        rw [unknown] at known
        cases known
  case exclusive =>
    exact mutexes.exclusive.goes (fun _ => rfl) (by simp [here, CallerPc.holds])

theorem Mutexes.locked (mutexes : Mutexes setup s) {call : Call ρ} {w : Nat} (here : s.callers t = .lockMutex call w)
    (free : s.mutex w = false) :
    Mutexes setup ((s.setMutex w true).callerGoto t (call.start setup.policy w)) where
  fresh := mutexes.fresh
  apart := mutexes.apart
  known u c v named got := by
    by_cases same : u = t
    · subst same
      simp only [State.callerGoto, State.setMutex, Function.update_self, Call.start_id] at named got
      rw [CallerPc.wrapper_of_holds (Call.start_holds _ _ _)] at got
      cases got
      cases named
      exact mutexes.known u _ w (by rw [here]; rfl) (by rw [here]; rfl)
    · simp only [State.callerGoto, State.setMutex, Function.update_of_ne same] at named got
      exact mutexes.known u c v named got
  exclusive := by
    refine mutexes.exclusive.acquire (i := t) free ?_ (fun v other => ?_) ?_ fun u other => ?_
    · simp [State.callerGoto, State.setMutex]
    · simp [State.callerGoto, State.setMutex, other]
    · simp [State.callerGoto]
    · simp [State.callerGoto, State.setMutex, other]

theorem Mutexes.answered (mutexes : Mutexes setup s) {reply : Answer ρ} {w : Nat}
    (here : s.callers t = .answer reply w) : Mutexes setup ((s.setMutex w false).callerGoto t .idle) where
  fresh := mutexes.fresh
  apart := mutexes.apart
  known u c v named got := by
    by_cases same : u = t
    · subst same
      simp [State.callerGoto, CallerPc.id] at named
    · simp only [State.callerGoto, State.setMutex, Function.update_of_ne same] at named got
      exact mutexes.known u c v named got
  exclusive := by
    refine mutexes.exclusive.release (i := t) (by rw [here]; rfl) (fun v other => ?_) ?_ fun u other => ?_
    · simp [State.callerGoto, State.setMutex, other]
    · simp [State.callerGoto, CallerPc.holds]
    · simp [State.callerGoto, State.setMutex, other]

/-- A coroutine is registered under its own number. -/
def Keyed (setup : Setup ρ π) (s : State ρ π τ) : Prop :=
  ∀ c cr, s.idCr c = some cr → setup.id cr = c

variable [DecidableEq ρ]

theorem CallerEffect.keyed (effect : CallerEffect setup s t s') (keyed : Keyed setup s) : Keyed setup s' := by
  cases effect with
  | @registered cr w _ _ =>
    intro c other known
    by_cases same : c = setup.id cr
    · subst same
      simp only [State.callerGoto, State.setIdCr, Function.update_self, Option.some.injEq] at known
      rw [known]
    · simp only [State.callerGoto, State.setIdCr, Function.update_of_ne same] at known
      exact keyed c other known
  | @unregistered crid w cr _ _ =>
    intro c other known
    by_cases same : c = crid
    · subst same
      simp [State.callerGoto, State.setIdCr] at known
    · simp only [State.callerGoto, State.setIdCr, Function.update_of_ne same] at known
      exact keyed c other known
  | _ => exact keyed

theorem CallerEffect.mutexes (effect : CallerEffect setup s t s') (keyed : Keyed setup s) (mutexes : Mutexes setup s) :
    Mutexes setup s' := by
  cases effect with
  | @known call w here known =>
    have before : (s.callers t).holds = none := by
      rcases here with here | here <;> rw [here] <;> rfl
    refine mutexes.goes rfl rfl rfl rfl before.symm ?_
    rintro c w ⟨⟩ ⟨⟩
    exact known
  | unknown here => exact mutexes.goes rfl rfl rfl rfl (by rw [here]; rfl) nofun
  | created here unknown => exact mutexes.created here unknown
  | locked here free => exact mutexes.locked here free
  | answered here => exact mutexes.answered here
  | assigned here | refused here | registered here | placed here | enqueued here | absent here
  | thrown here | missing here | found here | acquired here | spins here | erased here | released here
  | unlocked here =>
    exact mutexes.within rfl rfl rfl rfl (congrArg (CallerPc.id setup) here).symm rfl (congrArg CallerPc.holds here)
  | unregistered here known =>
    refine mutexes.within rfl rfl rfl rfl ?_ rfl (by rw [here]; rfl)
    rw [here]
    exact congrArg some (keyed _ _ known)

end Step

end CyberRT.Scheduler

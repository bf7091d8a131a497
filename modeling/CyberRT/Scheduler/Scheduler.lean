import CyberRT.Scheduler.Policy

namespace CyberRT.Scheduler
open Concur ClassicContext
variable {ρ π τ : Type}

/-- The run queues that a processor looks through. -/
inductive Context
  | classic (groupName : String)
  | choreography (pid : Nat)

/-- The run queues of a context in the order in which `NextRoutine` takes their locks. -/
def Context.queues : Context → List RunQueue
  | .classic groupName => (List.range maxPrio).reverse.map (RunQueue.classic groupName)
  | .choreography pid => [.choreography pid]

/-- What is fixed while the scheduler runs: its configuration, the names of the coroutines and the other fields
they are created with, and the contexts of the processors. -/
structure Setup (ρ π : Type) where
  policy : Policy
  id : ρ → Nat
  name : ρ → String
  created : ρ → Placement
  context : π → Context

inductive Call (ρ : Type)
  | dispatchTask (cr : ρ)
  | removeCRoutine (crid : Nat)

/-- What a call is about to return. `removed` says which coroutine `RemoveCRoutine` has taken from the registry
when it returns true; `at` has thrown in a call that returns `threw`. -/
inductive Answer (ρ : Type)
  | dispatched (cr : ρ) (result : Bool)
  | removed (cr : ρ)
  | notRemoved (crid : Nat)
  | threw (crid : Nat)

/-- Where a thread stands in `DispatchTask` or `RemoveCRoutine`. From `assign` on it has locked the mutex of the
wrapper `w`; at `acquire`, `erase`, `release` and `unlockQueue` it has the write lock of the run queue. -/
inductive CallerPc (ρ : Type)
  | idle
  | getMutex (call : Call ρ)
  | createMutex (call : Call ρ)
  | lockMutex (call : Call ρ) (w : Nat)
  | assign (cr : ρ) (w : Nat)
  | register (cr : ρ) (w : Nat)
  | place (cr : ρ) (w : Nat)
  | enqueue (cr : ρ) (q : RunQueue) (w : Nat)
  | unregister (crid : Nat) (w : Nat)
  | search (cr : ρ) (pid : Nat) (w : Nat)
  | acquire (cr found : ρ) (q : RunQueue) (w : Nat)
  | erase (cr found : ρ) (q : RunQueue) (w : Nat)
  | release (cr found : ρ) (q : RunQueue) (w : Nat)
  | unlockQueue (cr : ρ) (q : RunQueue) (w : Nat)
  | answer (answer : Answer ρ) (w : Nat)

/-- Where a processor stands. In `NextRoutine` it has the run queues it has yet to lock, and the read lock of
the one through which it looks; `found` is about to give that lock back and to return. -/
inductive ProcessorPc (ρ : Type)
  | lockQueue (rest : List RunQueue)
  | look (q : RunQueue) (i : Nat) (rest : List RunQueue)
  | acquire (cr : ρ) (q : RunQueue) (i : Nat) (rest : List RunQueue)
  | updateState (cr : ρ) (q : RunQueue) (i : Nat) (rest : List RunQueue)
  | skip (cr : ρ) (q : RunQueue) (i : Nat) (rest : List RunQueue)
  | found (cr : ρ) (q : RunQueue)
  | resume (cr : ρ)
  | running (cr : ρ)
  | release (cr : ρ)

/-- The registry, the mutexes of the coroutines' numbers, the coroutines, and the run queues with their locks.
The entries of a run queue carry the priority with which they were put there. -/
structure State (ρ π τ : Type) where
  idCr : Nat → Option ρ
  idMapMutex : Nat → Option Nat
  wrappers : Nat
  mutex : Nat → Bool
  place : ρ → Placement
  routines : ρ → CRoutine
  queues : RunQueue → List (Nat × ρ)
  lockNum : RunQueue → Int
  callers : τ → CallerPc ρ
  processors : π → ProcessorPc ρ

/-- A thread calls the scheduler or takes its next step; so does a processor, whose coroutine, if it runs one,
swaps its context out, after it has set its state or not; somebody sets the update flag of a coroutine. -/
inductive Event (ρ π τ : Type)
  | call (t : τ) (call : Call ρ)
  | caller (t : τ)
  | process (p : π) (now : Nat) (yield : Option RoutineState)
  | setUpdateFlag (cr : ρ)

/-- `emplace` of the ordered multimap: behind all entries of the same priority or a higher one. -/
def emplace (prio : Nat) (cr : ρ) : List (Nat × ρ) → List (Nat × ρ)
  | [] => [(prio, cr)]
  | e :: rest => if prio ≤ e.1 then e :: emplace prio cr rest else (prio, cr) :: e :: rest

def RunQueue.put (prio : Nat) (cr : ρ) (entries : List (Nat × ρ)) : RunQueue → List (Nat × ρ)
  | .classic .. => entries ++ [(prio, cr)]
  | .choreography _ => emplace prio cr entries

def Call.id (setup : Setup ρ π) : Call ρ → Nat
  | .dispatchTask cr => setup.id cr
  | .removeCRoutine crid => crid

/-- The first step of a call that has locked its mutex. -/
def Call.start (policy : Policy) (w : Nat) : Call ρ → CallerPc ρ
  | .dispatchTask cr =>
    match policy with
    | .classic .. => .register cr w
    | .choreography .. => .assign cr w
  | .removeCRoutine crid => .unregister crid w

section Step
variable [DecidableEq ρ] [DecidableEq τ] [DecidableEq π]

def State.callerGoto (s : State ρ π τ) (t : τ) (pc : CallerPc ρ) : State ρ π τ :=
  { s with callers := Function.update s.callers t pc }

def State.processorGoto (s : State ρ π τ) (p : π) (pc : ProcessorPc ρ) : State ρ π τ :=
  { s with processors := Function.update s.processors p pc }

def State.setRoutine (s : State ρ π τ) (cr : ρ) (routine : CRoutine) : State ρ π τ :=
  { s with routines := Function.update s.routines cr routine }

def State.setPlace (s : State ρ π τ) (cr : ρ) (place : Placement) : State ρ π τ :=
  { s with place := Function.update s.place cr place }

def State.setIdCr (s : State ρ π τ) (crid : Nat) (cr : Option ρ) : State ρ π τ :=
  { s with idCr := Function.update s.idCr crid cr }

def State.setMutex (s : State ρ π τ) (w : Nat) (locked : Bool) : State ρ π τ :=
  { s with mutex := Function.update s.mutex w locked }

def State.setQueue (s : State ρ π τ) (q : RunQueue) (entries : List (Nat × ρ)) : State ρ π τ :=
  { s with queues := Function.update s.queues q entries }

def State.setLockNum (s : State ρ π τ) (q : RunQueue) (lockNum : Int) : State ρ π τ :=
  { s with lockNum := Function.update s.lockNum q lockNum }

def State.createWrapper (s : State ρ π τ) (crid : Nat) : State ρ π τ :=
  { s with idMapMutex := Function.update s.idMapMutex crid (some s.wrappers), wrappers := s.wrappers + 1 }

/-- The next access of `DispatchTask` or `RemoveCRoutine`, or what it does under a lock. -/
def callerStep (setup : Setup ρ π) (s : State ρ π τ) (t : τ) : Option (State ρ π τ) :=
  match s.callers t with
  | .idle => none
  | .getMutex call =>
    match s.idMapMutex (call.id setup) with
    | some w => some (s.callerGoto t (.lockMutex call w))
    | none => some (s.callerGoto t (.createMutex call))
  | .createMutex call =>
    match s.idMapMutex (call.id setup) with
    | some w => some (s.callerGoto t (.lockMutex call w))
    | none => some ((s.createWrapper (call.id setup)).callerGoto t (.lockMutex call s.wrappers))
  | .lockMutex call w =>
    if s.mutex w then none else some ((s.setMutex w true).callerGoto t (call.start setup.policy w))
  | .assign cr w =>
    some ((s.setPlace cr (setup.policy.assign (setup.name cr) (s.place cr))).callerGoto t (.register cr w))
  | .register cr w =>
    match s.idCr (setup.id cr) with
    | some _ => some (s.callerGoto t (.answer (.dispatched cr false) w))
    | none => some ((s.setIdCr (setup.id cr) (some cr)).callerGoto t (.place cr w))
  | .place cr w => (setup.policy.place (setup.name cr) (s.place cr)).map fun (place, q) =>
      (s.setPlace cr place).callerGoto t (.enqueue cr q w)
  | .enqueue cr q w =>
    if s.lockNum q = 0 then
      some ((s.setQueue q (q.put (s.place cr).priority cr (s.queues q))).callerGoto t (.answer (.dispatched cr true) w))
    else none
  | .unregister crid w =>
    match s.idCr crid with
    | some cr => some (((s.setRoutine cr (s.routines cr).stop).setIdCr crid none).callerGoto t
        (.search cr (s.place cr).pid w))
    | none => some (s.callerGoto t (.answer (.notRemoved crid) w))
  | .search cr pid w =>
    match setup.policy.searched pid (s.place cr) with
    | none => some (s.callerGoto t (.answer (.threw (setup.id cr)) w))
    | some q =>
      if s.lockNum q = 0 then
        match (s.queues q).find? fun e => setup.id e.2 = setup.id cr with
        | some (_, found) =>
          some (((s.setRoutine found (s.routines found).stop).setLockNum q (-1)).callerGoto t (.acquire cr found q w))
        | none => some (s.callerGoto t (.answer (.notRemoved (setup.id cr)) w))
      else none
  | .acquire cr found q w =>
    let (free, routine) := (s.routines found).acquire
    some ((s.setRoutine found routine).callerGoto t (if free then .erase cr found q w else .acquire cr found q w))
  | .erase cr found q w =>
    some ((s.setQueue q ((s.queues q).eraseP fun e => setup.id e.2 = setup.id cr)).callerGoto t
      (.release cr found q w))
  | .release cr found q w =>
    some ((s.setRoutine found (s.routines found).release).callerGoto t (.unlockQueue cr q w))
  | .unlockQueue cr q w => some ((s.setLockNum q (s.lockNum q + 1)).callerGoto t (.answer (.removed cr) w))
  | .answer _ w => some ((s.setMutex w false).callerGoto t .idle)

/-- The next access of a processor. When `NextRoutine` returns no coroutine, it waits and starts over. -/
def processStep (setup : Setup ρ π) (s : State ρ π τ) (p : π) (now : Nat) (yield : Option RoutineState) :
    Option (State ρ π τ) :=
  match s.processors p with
  | .lockQueue [] => some (s.processorGoto p (.lockQueue (setup.context p).queues))
  | .lockQueue (q :: rest) =>
    if s.lockNum q < 0 then none else some ((s.setLockNum q (s.lockNum q + 1)).processorGoto p (.look q 0 rest))
  | .look q i rest =>
    match (s.queues q)[i]? with
    | some (_, cr) => some (s.processorGoto p (.acquire cr q i rest))
    | none => some ((s.setLockNum q (s.lockNum q - 1)).processorGoto p (.lockQueue rest))
  | .acquire cr q i rest =>
    let (free, routine) := (s.routines cr).acquire
    some ((s.setRoutine cr routine).processorGoto p (if free then .updateState cr q i rest else .look q (i + 1) rest))
  | .updateState cr q i rest =>
    let routine := (s.routines cr).updateState now
    some ((s.setRoutine cr routine).processorGoto p
      (if routine.state = RoutineState.ready then .found cr q else .skip cr q i rest))
  | .skip cr q i rest =>
    some ((s.setRoutine cr (s.routines cr).release).processorGoto p (.look q (i + 1) rest))
  | .found cr q => some ((s.setLockNum q (s.lockNum q - 1)).processorGoto p (.resume cr))
  | .resume cr =>
    let (switched, routine) := (s.routines cr).resume
    some ((s.setRoutine cr routine).processorGoto p (if switched then .running cr else .release cr))
  | .running cr =>
    some ((s.setRoutine cr ((s.routines cr).setState (yield.getD (s.routines cr).state))).processorGoto p (.release cr))
  | .release cr =>
    some ((s.setRoutine cr (s.routines cr).release).processorGoto p (.lockQueue (setup.context p).queues))

def step (setup : Setup ρ π) (s : State ρ π τ) : Event ρ π τ → Option (State ρ π τ)
  | .call t call =>
    match s.callers t with
    | .idle => some (s.callerGoto t (.getMutex call))
    | _ => none
  | .caller t => callerStep setup s t
  | .process p now yield => processStep setup s p now yield
  | .setUpdateFlag cr => some (s.setRoutine cr (s.routines cr).setUpdateFlag)

/-- Any number of threads, of coroutines and of processors. -/
def machine (τ : Type) [DecidableEq τ] (setup : Setup ρ π) : Machine (State ρ π τ) (Event ρ π τ) where
  init := ⟨fun _ => none, fun _ => none, 0, fun _ => false, setup.created, fun _ => .new 0, fun _ => [], fun _ => 0,
    fun _ => .idle, fun p => .lockQueue (setup.context p).queues⟩
  step := step setup

variable {setup : Setup ρ π} {s s' : State ρ π τ}

/-- Every way a thread in `DispatchTask` or `RemoveCRoutine` can move. -/
inductive CallerEffect (setup : Setup ρ π) (s : State ρ π τ) (t : τ) : State ρ π τ → Prop
  | known {call w} : s.callers t = .getMutex call ∨ s.callers t = .createMutex call →
      s.idMapMutex (call.id setup) = some w → CallerEffect setup s t (s.callerGoto t (.lockMutex call w))
  | unknown {call} : s.callers t = .getMutex call → CallerEffect setup s t (s.callerGoto t (.createMutex call))
  | created {call} : s.callers t = .createMutex call → s.idMapMutex (call.id setup) = none →
      CallerEffect setup s t ((s.createWrapper (call.id setup)).callerGoto t (.lockMutex call s.wrappers))
  | locked {call w} : s.callers t = .lockMutex call w → s.mutex w = false →
      CallerEffect setup s t ((s.setMutex w true).callerGoto t (call.start setup.policy w))
  | assigned {cr w} : s.callers t = .assign cr w →
      CallerEffect setup s t
        ((s.setPlace cr (setup.policy.assign (setup.name cr) (s.place cr))).callerGoto t (.register cr w))
  | refused {cr w other} : s.callers t = .register cr w → s.idCr (setup.id cr) = some other →
      CallerEffect setup s t (s.callerGoto t (.answer (.dispatched cr false) w))
  | registered {cr w} : s.callers t = .register cr w → s.idCr (setup.id cr) = none →
      CallerEffect setup s t ((s.setIdCr (setup.id cr) (some cr)).callerGoto t (.place cr w))
  | placed {cr w place q} : s.callers t = .place cr w →
      setup.policy.place (setup.name cr) (s.place cr) = some (place, q) →
      CallerEffect setup s t ((s.setPlace cr place).callerGoto t (.enqueue cr q w))
  | enqueued {cr q w} : s.callers t = .enqueue cr q w → s.lockNum q = 0 →
      CallerEffect setup s t ((s.setQueue q (q.put (s.place cr).priority cr (s.queues q))).callerGoto t
        (.answer (.dispatched cr true) w))
  | unregistered {crid w cr} : s.callers t = .unregister crid w → s.idCr crid = some cr →
      CallerEffect setup s t (((s.setRoutine cr (s.routines cr).stop).setIdCr crid none).callerGoto t
        (.search cr (s.place cr).pid w))
  | absent {crid w} : s.callers t = .unregister crid w → s.idCr crid = none →
      CallerEffect setup s t (s.callerGoto t (.answer (.notRemoved crid) w))
  | thrown {cr pid w} : s.callers t = .search cr pid w → setup.policy.searched pid (s.place cr) = none →
      CallerEffect setup s t (s.callerGoto t (.answer (.threw (setup.id cr)) w))
  | missing {cr pid w q} : s.callers t = .search cr pid w → setup.policy.searched pid (s.place cr) = some q →
      ((s.queues q).find? fun e => setup.id e.2 = setup.id cr) = none →
      CallerEffect setup s t (s.callerGoto t (.answer (.notRemoved (setup.id cr)) w))
  | found {cr pid w q prio found} : s.callers t = .search cr pid w →
      setup.policy.searched pid (s.place cr) = some q → s.lockNum q = 0 →
      ((s.queues q).find? fun e => setup.id e.2 = setup.id cr) = some (prio, found) →
      CallerEffect setup s t (((s.setRoutine found (s.routines found).stop).setLockNum q (-1)).callerGoto t
        (.acquire cr found q w))
  | acquired {cr found q w} : s.callers t = .acquire cr found q w → (s.routines found).lock = false →
      CallerEffect setup s t
        ((s.setRoutine found { s.routines found with lock := true }).callerGoto t (.erase cr found q w))
  | spins {cr found q w} : s.callers t = .acquire cr found q w → (s.routines found).lock = true →
      CallerEffect setup s t
        ((s.setRoutine found { s.routines found with lock := true }).callerGoto t (.acquire cr found q w))
  | erased {cr found q w} : s.callers t = .erase cr found q w →
      CallerEffect setup s t ((s.setQueue q ((s.queues q).eraseP fun e => setup.id e.2 = setup.id cr)).callerGoto t
        (.release cr found q w))
  | released {cr found q w} : s.callers t = .release cr found q w →
      CallerEffect setup s t ((s.setRoutine found (s.routines found).release).callerGoto t (.unlockQueue cr q w))
  | unlocked {cr q w} : s.callers t = .unlockQueue cr q w →
      CallerEffect setup s t ((s.setLockNum q (s.lockNum q + 1)).callerGoto t (.answer (.removed cr) w))
  | answered {answer w} : s.callers t = .answer answer w →
      CallerEffect setup s t ((s.setMutex w false).callerGoto t .idle)

/-- Every way a processor can move. -/
inductive ProcessEffect (setup : Setup ρ π) (s : State ρ π τ) (p : π) : State ρ π τ → Prop
  | start : s.processors p = .lockQueue [] →
      ProcessEffect setup s p (s.processorGoto p (.lockQueue (setup.context p).queues))
  | locked {q rest} : s.processors p = .lockQueue (q :: rest) → 0 ≤ s.lockNum q →
      ProcessEffect setup s p ((s.setLockNum q (s.lockNum q + 1)).processorGoto p (.look q 0 rest))
  | looked {q i rest prio cr} : s.processors p = .look q i rest → (s.queues q)[i]? = some (prio, cr) →
      ProcessEffect setup s p (s.processorGoto p (.acquire cr q i rest))
  | passed {q i rest} : s.processors p = .look q i rest →
      ProcessEffect setup s p ((s.setLockNum q (s.lockNum q - 1)).processorGoto p (.lockQueue rest))
  | acquired {cr q i rest} : s.processors p = .acquire cr q i rest → (s.routines cr).lock = false →
      ProcessEffect setup s p
        ((s.setRoutine cr { s.routines cr with lock := true }).processorGoto p (.updateState cr q i rest))
  | taken {cr q i rest} : s.processors p = .acquire cr q i rest → (s.routines cr).lock = true →
      ProcessEffect setup s p
        ((s.setRoutine cr { s.routines cr with lock := true }).processorGoto p (.look q (i + 1) rest))
  | updated {cr q i rest pc} (now) : s.processors p = .updateState cr q i rest →
      pc = .found cr q ∨ pc = .skip cr q i rest →
      ProcessEffect setup s p ((s.setRoutine cr ((s.routines cr).updateState now)).processorGoto p pc)
  | skipped {cr q i rest} : s.processors p = .skip cr q i rest →
      ProcessEffect setup s p ((s.setRoutine cr (s.routines cr).release).processorGoto p (.look q (i + 1) rest))
  | found {cr q} : s.processors p = .found cr q →
      ProcessEffect setup s p ((s.setLockNum q (s.lockNum q - 1)).processorGoto p (.resume cr))
  | resumed {cr pc} : s.processors p = .resume cr →
      pc = .release cr ∨ (pc = .running cr ∧ (s.routines cr).forceStop = false) →
      ProcessEffect setup s p ((s.setRoutine cr (s.routines cr).resume.2).processorGoto p pc)
  | yielded {cr} (state) : s.processors p = .running cr →
      ProcessEffect setup s p ((s.setRoutine cr ((s.routines cr).setState state)).processorGoto p (.release cr))
  | released {cr} : s.processors p = .release cr →
      ProcessEffect setup s p ((s.setRoutine cr (s.routines cr).release).processorGoto p
        (.lockQueue (setup.context p).queues))

omit [DecidableEq π] in
theorem callerStep_effect {t : τ} (moved : callerStep setup s t = some s') : CallerEffect setup s t s' := by
  unfold callerStep at moved
  cases here : s.callers t with
  | idle => simp only [here, reduceCtorEq] at moved
  | getMutex call =>
    simp only [here] at moved
    split at moved
    · rename_i w known
      cases moved
      exact .known (.inl here) known
    · cases moved
      exact .unknown here
  | createMutex call =>
    simp only [here] at moved
    split at moved
    · rename_i w known
      cases moved
      exact .known (.inr here) known
    · rename_i unknown
      cases moved
      exact .created here unknown
  | lockMutex call w =>
    simp only [here] at moved
    split at moved
    · cases moved
    · rename_i free
      cases moved
      exact .locked here (Bool.eq_false_iff.mpr free)
  | assign cr w =>
    simp only [here] at moved
    cases moved
    exact .assigned here
  | register cr w =>
    simp only [here] at moved
    split at moved
    · rename_i other known
      cases moved
      exact .refused here known
    · rename_i unknown
      cases moved
      exact .registered here unknown
  | place cr w =>
    simp only [here, Option.map_eq_some_iff] at moved
    obtain ⟨⟨place, q⟩, placed, rfl⟩ := moved
    exact .placed here placed
  | enqueue cr q w =>
    simp only [here] at moved
    split at moved
    · rename_i free
      cases moved
      exact .enqueued here free
    · cases moved
  | unregister crid w =>
    simp only [here] at moved
    split at moved
    · rename_i cr known
      cases moved
      exact .unregistered here known
    · rename_i unknown
      cases moved
      exact .absent here unknown
  | search cr pid w =>
    simp only [here] at moved
    split at moved
    · rename_i high
      cases moved
      exact .thrown here high
    · rename_i q searched
      split at moved
      · rename_i free
        split at moved
        · rename_i prio found there
          cases moved
          exact .found here searched free there
        · rename_i missing
          cases moved
          exact .missing here searched missing
      · cases moved
  | acquire cr found q w =>
    simp only [here, CRoutine.acquire] at moved
    by_cases free : (s.routines found).lock = true
    · simp only [free, Bool.not_true, Bool.false_eq_true, if_false] at moved
      cases moved
      exact .spins here free
    · simp only [free, Bool.not_false, if_true] at moved
      cases moved
      exact .acquired here (Bool.eq_false_iff.mpr free)
  | erase cr found q w =>
    simp only [here] at moved
    cases moved
    exact .erased here
  | release cr found q w =>
    simp only [here] at moved
    cases moved
    exact .released here
  | unlockQueue cr q w =>
    simp only [here] at moved
    cases moved
    exact .unlocked here
  | answer answer w =>
    simp only [here] at moved
    cases moved
    exact .answered here

omit [DecidableEq τ] in
theorem processStep_effect {p : π} {now : Nat} {yield : Option RoutineState}
    (moved : processStep setup s p now yield = some s') : ProcessEffect setup s p s' := by
  unfold processStep at moved
  cases here : s.processors p with
  | lockQueue rest =>
    cases rest with
    | nil =>
      simp only [here] at moved
      cases moved
      exact .start here
    | cons q rest =>
      simp only [here] at moved
      split at moved
      · cases moved
      · rename_i free
        cases moved
        exact .locked here (Int.not_lt.mp free)
  | look q i rest =>
    simp only [here] at moved
    split at moved
    · rename_i prio cr there
      cases moved
      exact .looked here there
    · cases moved
      exact .passed here
  | acquire cr q i rest =>
    simp only [here, CRoutine.acquire] at moved
    by_cases free : (s.routines cr).lock = true
    · simp only [free, Bool.not_true, Bool.false_eq_true, if_false] at moved
      cases moved
      exact .taken here free
    · simp only [free, Bool.not_false, if_true] at moved
      cases moved
      exact .acquired here (Bool.eq_false_iff.mpr free)
  | updateState cr q i rest =>
    simp only [here] at moved
    cases moved
    refine .updated now here ?_
    split
    · exact .inl rfl
    · exact .inr rfl
  | skip cr q i rest =>
    simp only [here] at moved
    cases moved
    exact .skipped here
  | found cr q =>
    simp only [here] at moved
    cases moved
    exact .found here
  | resume cr =>
    simp only [here] at moved
    cases moved
    refine .resumed here ?_
    cases stopped : (s.routines cr).forceStop with
    | true => simp [CRoutine.resume, stopped]
    | false =>
      split
      · exact .inr ⟨rfl, rfl⟩
      · exact .inl rfl
  | running cr =>
    simp only [here] at moved
    cases moved
    exact .yielded _ here
  | release cr =>
    simp only [here] at moved
    cases moved
    exact .released here

end Step

end CyberRT.Scheduler

import CyberRT.Lib.Count
import CyberRT.Lib.Flags
import CyberRT.Scheduler.Scheduler

namespace CyberRT.Scheduler
open Concur
variable {ρ π τ : Type}

/-- The coroutine whose flag a processor has acquired. -/
def ProcessorPc.has : ProcessorPc ρ → Option ρ
  | .updateState cr _ _ _ | .skip cr _ _ _ | .found cr _ | .resume cr | .running cr | .release cr => some cr
  | .lockQueue _ | .look _ _ _ | .acquire _ _ _ _ => none

/-- The coroutine whose flag a thread in `RemoveCRoutine` has acquired. -/
def CallerPc.has : CallerPc ρ → Option ρ
  | .erase _ found _ _ | .release _ found _ _ => some found
  | _ => none

theorem Call.start_has (policy : Policy) (call : Call ρ) (w : Nat) : (call.start policy w).has = none := by
  cases call with
  | dispatchTask cr => cases policy <;> rfl
  | removeCRoutine crid => rfl

/-- Who has acquired which flag: the processors and the threads that remove coroutines. -/
def holder (s : State ρ π τ) : π ⊕ τ → Option ρ :=
  Sum.elim (fun p => (s.processors p).has) fun t => (s.callers t).has

abbrev Flags (s : State ρ π τ) : Prop :=
  Exclusive (fun cr => (s.routines cr).lock) (holder s)

section Step
variable {setup : Setup ρ π} {s s' : State ρ π τ}

theorem holder_processor [DecidableEq π] {p : π} {pc : ProcessorPc ρ}
    (processors : s'.processors = Function.update s.processors p pc) (callers : s'.callers = s.callers) :
    holder s' (.inl p) = pc.has ∧ ∀ i, i ≠ .inl p → holder s' i = holder s i := by
  refine ⟨by simp [holder, processors], ?_⟩
  rintro (q | t) other
  · have different : q ≠ p := fun same => other (congrArg Sum.inl same)
    simp [holder, processors, different]
  · simp [holder, callers]

theorem holder_caller [DecidableEq τ] {t : τ} {pc : CallerPc ρ}
    (callers : s'.callers = Function.update s.callers t pc) (processors : s'.processors = s.processors) :
    holder s' (.inr t) = pc.has ∧ ∀ i, i ≠ .inr t → holder s' i = holder s i := by
  refine ⟨by simp [holder, callers], ?_⟩
  rintro (p | u) other
  · simp [holder, processors]
  · have different : u ≠ t := fun same => other (congrArg Sum.inr same)
    simp [holder, callers, different]

/-- A processor that moves on with the coroutine it has, or with none. -/
theorem Flags.processor [DecidableEq π] (flags : Flags s) {p : π} {pc : ProcessorPc ρ}
    (processors : s'.processors = Function.update s.processors p pc) (callers : s'.callers = s.callers)
    (has : pc.has = (s.processors p).has) (locks : ∀ cr, (s'.routines cr).lock = (s.routines cr).lock) : Flags s' := by
  have moved := holder_processor processors callers
  refine flags.same locks fun i => ?_
  by_cases own : i = .inl p
  · rw [own, moved.1, has]
    rfl
  · exact moved.2 i own

theorem Flags.caller [DecidableEq τ] (flags : Flags s) {t : τ} {pc : CallerPc ρ}
    (callers : s'.callers = Function.update s.callers t pc) (processors : s'.processors = s.processors)
    (has : pc.has = (s.callers t).has) (locks : ∀ cr, (s'.routines cr).lock = (s.routines cr).lock) : Flags s' := by
  have moved := holder_caller callers processors
  refine flags.same locks fun i => ?_
  by_cases own : i = .inr t
  · rw [own, moved.1, has]
    rfl
  · exact moved.2 i own

variable [DecidableEq ρ]

/-- A coroutine whose other fields change keeps its flag. -/
theorem lock_setRoutine (s : State ρ π τ) {cr : ρ} {routine : CRoutine} (same : routine.lock = (s.routines cr).lock)
    (cr' : ρ) : ((s.setRoutine cr routine).routines cr').lock = (s.routines cr').lock := by
  by_cases own : cr' = cr
  · subst own
    simp [State.setRoutine, same]
  · simp [State.setRoutine, own]

theorem updateState_lock (cr : CRoutine) (now : Nat) : (cr.updateState now).lock = cr.lock := by
  unfold CRoutine.updateState
  split
  · rfl
  · split <;> rfl

theorem resume_lock (cr : CRoutine) : cr.resume.2.lock = cr.lock := by
  unfold CRoutine.resume
  split
  · rfl
  · split <;> rfl

theorem Flags.processor_acquires [DecidableEq π] (flags : Flags s) (p : π) {cr : ρ} {pc : ProcessorPc ρ}
    (free : (s.routines cr).lock = false) (has : pc.has = some cr) :
    Flags ((s.setRoutine cr { s.routines cr with lock := true }).processorGoto p pc) := by
  have moved : holder ((s.setRoutine cr { s.routines cr with lock := true }).processorGoto p pc) (.inl p) =
      pc.has ∧ _ := holder_processor (s := s) rfl rfl
  refine flags.acquire free ?_ (fun cr' other => ?_) (moved.1.trans has) moved.2
  · simp [State.processorGoto, State.setRoutine]
  · simp [State.processorGoto, State.setRoutine, other]

theorem Flags.processor_releases [DecidableEq π] (flags : Flags s) {p : π} {cr : ρ} {pc : ProcessorPc ρ}
    (held : (s.processors p).has = some cr) (has : pc.has = none) :
    Flags ((s.setRoutine cr (s.routines cr).release).processorGoto p pc) := by
  have moved : holder ((s.setRoutine cr (s.routines cr).release).processorGoto p pc) (.inl p) = pc.has ∧ _ :=
    holder_processor (s := s) rfl rfl
  refine Exclusive.release (i := .inl p) flags held (fun cr' other => ?_) (moved.1.trans has) moved.2
  simp [State.processorGoto, State.setRoutine, other]

theorem Flags.caller_acquires [DecidableEq τ] (flags : Flags s) (t : τ) {cr : ρ} {pc : CallerPc ρ}
    (free : (s.routines cr).lock = false) (has : pc.has = some cr) :
    Flags ((s.setRoutine cr { s.routines cr with lock := true }).callerGoto t pc) := by
  have moved : holder ((s.setRoutine cr { s.routines cr with lock := true }).callerGoto t pc) (.inr t) = pc.has ∧ _ :=
    holder_caller (s := s) rfl rfl
  refine flags.acquire free ?_ (fun cr' other => ?_) (moved.1.trans has) moved.2
  · simp [State.callerGoto, State.setRoutine]
  · simp [State.callerGoto, State.setRoutine, other]

theorem Flags.caller_releases [DecidableEq τ] (flags : Flags s) {t : τ} {cr : ρ} {pc : CallerPc ρ}
    (held : (s.callers t).has = some cr) (has : pc.has = none) :
    Flags ((s.setRoutine cr (s.routines cr).release).callerGoto t pc) := by
  have moved : holder ((s.setRoutine cr (s.routines cr).release).callerGoto t pc) (.inr t) = pc.has ∧ _ :=
    holder_caller (s := s) rfl rfl
  refine Exclusive.release (i := .inr t) flags held (fun cr' other => ?_) (moved.1.trans has) moved.2
  simp [State.callerGoto, State.setRoutine, other]

theorem ProcessEffect.flags [DecidableEq π] {p : π} (effect : ProcessEffect setup s p s') (flags : Flags s) :
    Flags s' := by
  cases effect with
  | start here | locked here | looked here | passed here | found here =>
    exact flags.processor rfl rfl (by rw [here]; rfl) fun _ => rfl
  | acquired here free => exact flags.processor_acquires p free rfl
  | taken here taken => exact flags.processor rfl rfl (by rw [here]; rfl) (lock_setRoutine s taken.symm)
  | updated now here next =>
    refine flags.processor rfl rfl ?_ (lock_setRoutine s (updateState_lock _ now))
    rcases next with rfl | rfl <;> rw [here] <;> rfl
  | skipped here => exact flags.processor_releases (by rw [here]; rfl) rfl
  | resumed here next =>
    refine flags.processor rfl rfl ?_ (lock_setRoutine s (resume_lock _))
    rcases next with rfl | ⟨rfl, -⟩ <;> rw [here] <;> rfl
  | yielded state here => exact flags.processor rfl rfl (by rw [here]; rfl) (lock_setRoutine s rfl)
  | released here => exact flags.processor_releases (by rw [here]; rfl) rfl

theorem CallerEffect.flags [DecidableEq τ] {t : τ} (effect : CallerEffect setup s t s') (flags : Flags s) :
    Flags s' := by
  cases effect with
  | known here =>
    refine flags.caller rfl rfl ?_ fun _ => rfl
    rcases here with here | here <;> rw [here] <;> rfl
  | @locked call w here =>
    refine flags.caller rfl rfl ?_ fun _ => rfl
    rw [here, Call.start_has]
    rfl
  | unknown here | created here | assigned here | refused here | registered here | placed here | enqueued here
  | absent here | thrown here | missing here | unlocked here | answered here | erased here =>
    exact flags.caller rfl rfl (congrArg CallerPc.has here).symm fun _ => rfl
  | unregistered here | found here =>
    exact flags.caller rfl rfl (congrArg CallerPc.has here).symm (lock_setRoutine s rfl)
  | acquired here free => exact flags.caller_acquires t free rfl
  | spins here taken => exact flags.caller rfl rfl (by rw [here]) (lock_setRoutine s taken.symm)
  | released here => exact flags.caller_releases (by rw [here]; rfl) rfl

theorem step_flags [DecidableEq π] [DecidableEq τ] {e : Event ρ π τ} (flags : Flags s)
    (moved : step setup s e = some s') : Flags s' := by
  cases e with
  | call t call =>
    simp only [step] at moved
    split at moved
    · rename_i here
      cases moved
      exact flags.caller rfl rfl (by rw [here]; rfl) fun _ => rfl
    · cases moved
  | caller t => exact (callerStep_effect moved).flags flags
  | process p now yield => exact (processStep_effect moved).flags flags
  | setUpdateFlag cr =>
    cases moved
    exact flags.same (lock_setRoutine s rfl) fun _ => rfl

end Step

/-- The run queue whose read lock a processor has. -/
def ProcessorPc.reads : ProcessorPc ρ → Option RunQueue
  | .look q _ _ | .acquire _ q _ _ | .updateState _ q _ _ | .skip _ q _ _ | .found _ q => some q
  | .lockQueue _ | .resume _ | .running _ | .release _ => none

/-- The run queue whose write lock a thread in `RemoveCRoutine` has. -/
def CallerPc.writes : CallerPc ρ → Option RunQueue
  | .acquire _ _ q _ | .erase _ _ q _ | .release _ _ q _ | .unlockQueue _ q _ => some q
  | _ => none

theorem Call.start_writes (policy : Policy) (call : Call ρ) (w : Nat) : (call.start policy w).writes = none := by
  cases call with
  | dispatchTask cr => cases policy <;> rfl
  | removeCRoutine crid => rfl

def ProcessorPc.reading (q : RunQueue) (pc : ProcessorPc ρ) : Nat :=
  if pc.reads = some q then 1 else 0

section Locks
variable [Fintype π]

/-- The lock of a run queue counts the processors that look through it, or is -1 for the one thread that
removes from it. -/
structure Locks (s : State ρ π τ) : Prop where
  counts : ∀ q, s.lockNum q = Config.total (ProcessorPc.reading q) s.processors ∨
    (s.lockNum q = -1 ∧ Config.total (ProcessorPc.reading q) s.processors = 0)
  exclusive : Exclusive (fun q => decide (s.lockNum q = -1)) fun t => (s.callers t).writes

/-- While a processor looks through a run queue no thread removes from it. -/
theorem Locks.apart {s : State ρ π τ} (locks : Locks s) {p : π} {t : τ} {q : RunQueue}
    (reads : (s.processors p).reads = some q) : (s.callers t).writes ≠ some q := by
  intro writes
  have some := Config.le_total (ProcessorPc.reading q) s.processors p
  rw [ProcessorPc.reading, if_pos reads] at some
  have writer := of_decide_eq_true (locks.exclusive.set t q writes)
  have counts := locks.counts q
  omega

section Step
variable {setup : Setup ρ π} {s s' : State ρ π τ}

theorem Locks.caller [DecidableEq τ] (locks : Locks s) {t : τ} {pc : CallerPc ρ}
    (callers : s'.callers = Function.update s.callers t pc) (processors : s'.processors = s.processors)
    (lockNum : s'.lockNum = s.lockNum) (writes : pc.writes = (s.callers t).writes) : Locks s' where
  counts := by
    rw [lockNum, processors]
    exact locks.counts
  exclusive := by
    rw [callers, lockNum]
    exact locks.exclusive.goes (fun _ => rfl) writes

theorem Locks.processor [DecidableEq π] (locks : Locks s) {p : π} {pc : ProcessorPc ρ}
    (processors : s'.processors = Function.update s.processors p pc) (callers : s'.callers = s.callers)
    (counts : ∀ q, s'.lockNum q + (s.processors p).reading q = s.lockNum q + pc.reading q)
    (free : ∀ q, s.lockNum q = -1 → pc.reading q = 0) : Locks s' := by
  have moved : ∀ q, (s'.lockNum q = Config.total (ProcessorPc.reading q) s'.processors ∨
      (s'.lockNum q = -1 ∧ Config.total (ProcessorPc.reading q) s'.processors = 0)) ∧
      (s'.lockNum q = -1 ↔ s.lockNum q = -1) := by
    intro q
    have before := locks.counts q
    have moves := Config.total_update (ProcessorPc.reading q) s.processors p pc
    have own := Config.le_total (ProcessorPc.reading q) s.processors p
    have count := counts q
    have blocked := free q
    rw [processors]
    omega
  refine ⟨fun q => (moved q).1, locks.exclusive.same (fun q => decide_eq_decide.mpr (moved q).2) fun t => ?_⟩
  rw [callers]

/-- A processor that keeps the read lock it has, or goes on without one. -/
theorem Locks.processor_keeps [DecidableEq π] (locks : Locks s) {p : π} {pc : ProcessorPc ρ}
    (processors : s'.processors = Function.update s.processors p pc) (callers : s'.callers = s.callers)
    (lockNum : s'.lockNum = s.lockNum) (reads : pc.reads = (s.processors p).reads) : Locks s' := by
  have reading : ∀ q, pc.reading q = (s.processors p).reading q := by
    intro q
    rw [ProcessorPc.reading, reads, ProcessorPc.reading]
  refine locks.processor processors callers (fun q => by rw [lockNum, reading]) fun q writer => ?_
  have own := Config.le_total (ProcessorPc.reading q) s.processors p
  have counts := locks.counts q
  rw [reading]
  omega

theorem Locks.processor_locks [DecidableEq π] (locks : Locks s) {p : π} {q : RunQueue} {pc : ProcessorPc ρ}
    (before : (s.processors p).reads = none) (after : pc.reads = some q) (free : 0 ≤ s.lockNum q) :
    Locks ((s.setLockNum q (s.lockNum q + 1)).processorGoto p pc) := by
  refine locks.processor rfl rfl (fun q' => ?_) fun q' writer => ?_
  · by_cases same : q' = q
    · subst same
      simp [State.processorGoto, State.setLockNum, ProcessorPc.reading, before, after]
    · simp [State.processorGoto, State.setLockNum, ProcessorPc.reading, before, after, same, Ne.symm same]
  · have other : q ≠ q' := by
      rintro rfl
      omega
    simp [ProcessorPc.reading, after, other]

theorem Locks.processor_unlocks [DecidableEq π] (locks : Locks s) {p : π} {q : RunQueue} {pc : ProcessorPc ρ}
    (before : (s.processors p).reads = some q) (after : pc.reads = none) :
    Locks ((s.setLockNum q (s.lockNum q - 1)).processorGoto p pc) := by
  refine locks.processor rfl rfl (fun q' => ?_) fun q' _ => by simp [ProcessorPc.reading, after]
  by_cases same : q' = q
  · subst same
    simp [State.processorGoto, State.setLockNum, ProcessorPc.reading, before, after]
  · simp [State.processorGoto, State.setLockNum, ProcessorPc.reading, before, after, same, Ne.symm same]

/-- The write lock is taken when nobody has the lock. -/
theorem Locks.caller_locks [DecidableEq τ] (locks : Locks s) (t : τ) {q : RunQueue} {pc : CallerPc ρ}
    (after : pc.writes = some q) (free : s.lockNum q = 0) : Locks ((s.setLockNum q (-1)).callerGoto t pc) where
  counts q' := by
    have counts := locks.counts q'
    by_cases same : q' = q
    · subst same
      refine .inr ⟨Function.update_self _ _ _, ?_⟩
      have none : Config.total (ProcessorPc.reading q') s.processors = 0 := by omega
      exact none
    · simpa [State.callerGoto, State.setLockNum, same] using counts
  exclusive := by
    refine locks.exclusive.acquire (i := t) (k := q) (by simp [free]) ?_ (fun q' other => ?_) ?_ fun u other => ?_
    · simp [State.callerGoto, State.setLockNum]
    · simp [State.callerGoto, State.setLockNum, other]
    · simp [State.callerGoto, after]
    · simp [State.callerGoto, State.setLockNum, other]

theorem Locks.caller_unlocks [DecidableEq τ] (locks : Locks s) {t : τ} {q : RunQueue} {pc : CallerPc ρ}
    (before : (s.callers t).writes = some q) (after : pc.writes = none) :
    Locks ((s.setLockNum q (s.lockNum q + 1)).callerGoto t pc) where
  counts q' := by
    have counts := locks.counts q'
    by_cases same : q' = q
    · subst same
      have writer := of_decide_eq_true (locks.exclusive.set t q' before)
      simp only [State.callerGoto, State.setLockNum, Function.update_self]
      omega
    · simpa [State.callerGoto, State.setLockNum, same] using counts
  exclusive := by
    refine locks.exclusive.release (i := t) before (fun q' other => ?_) ?_ fun u other => ?_
    · simp [State.callerGoto, State.setLockNum, other]
    · simp [State.callerGoto, after]
    · simp [State.callerGoto, State.setLockNum, other]

variable [DecidableEq ρ]

theorem ProcessEffect.locks [DecidableEq π] {p : π} (effect : ProcessEffect setup s p s') (locks : Locks s) :
    Locks s' := by
  cases effect with
  | start here | looked here | acquired here | taken here | skipped here | yielded _ here | released here =>
    exact locks.processor_keeps rfl rfl rfl (congrArg ProcessorPc.reads here).symm
  | locked here free => exact locks.processor_locks (by rw [here]; rfl) rfl free
  | passed here | found here => exact locks.processor_unlocks (by rw [here]; rfl) rfl
  | updated now here next =>
    refine locks.processor_keeps rfl rfl rfl ?_
    rcases next with rfl | rfl <;> rw [here] <;> rfl
  | resumed here next =>
    refine locks.processor_keeps rfl rfl rfl ?_
    rcases next with rfl | ⟨rfl, -⟩ <;> rw [here] <;> rfl

theorem CallerEffect.locks [DecidableEq τ] {t : τ} (effect : CallerEffect setup s t s') (locks : Locks s) :
    Locks s' := by
  cases effect with
  | known here =>
    refine locks.caller rfl rfl rfl ?_
    rcases here with here | here <;> rw [here] <;> rfl
  | @locked call w here =>
    refine locks.caller rfl rfl rfl ?_
    rw [here, Call.start_writes]
    rfl
  | unknown here | created here | assigned here | refused here | registered here | placed here | enqueued here
  | unregistered here | absent here | thrown here | missing here | acquired here | spins here | erased here
  | released here | answered here =>
    exact locks.caller rfl rfl rfl (congrArg CallerPc.writes here).symm
  | @found cr pid w q prio found here searched free _ =>
    have stopped : Locks (s.setRoutine found (s.routines found).stop) := ⟨locks.counts, locks.exclusive⟩
    exact stopped.caller_locks t rfl free
  | unlocked here => exact locks.caller_unlocks (by rw [here]; rfl) rfl

end Step

end Locks

end CyberRT.Scheduler

import CyberRT.Scheduler.Exclusion
import CyberRT.Scheduler.RegistryAgrees

namespace CyberRT.Scheduler
open Concur
variable {ρ π τ : Type}

/-- The coroutine that a processor has, or has seen in a run queue. -/
def ProcessorPc.touches : ProcessorPc ρ → Option ρ
  | .acquire cr _ _ _ => some cr
  | pc => pc.has

/-- The coroutine that a thread has taken from the registry. -/
def CallerPc.removing : CallerPc ρ → Option ρ
  | .search cr _ _ | .acquire cr _ _ _ | .erase cr _ _ _ | .release cr _ _ _ | .unlockQueue cr _ _
  | .answer (.removed cr) _ => some cr
  | _ => none

/-- The coroutine that a thread has taken from its run queue as well. -/
def CallerPc.leaving : CallerPc ρ → Option ρ
  | .release cr _ _ _ | .unlockQueue cr _ _ | .answer (.removed cr) _ => some cr
  | _ => none

theorem inside_of_leaving {setup : Setup ρ π} {pc : CallerPc ρ} {cr : ρ} (leaving : pc.leaving = some cr) :
    Inside setup pc (setup.id cr) := by
  cases pc with
  | release | unlockQueue =>
    cases leaving
    exact .intro rfl rfl
  | answer reply w =>
    cases reply with
    | removed =>
      cases leaving
      exact .intro rfl rfl
    | dispatched | notRemoved | threw => cases leaving
  | _ => cases leaving

theorem Call.start_removing (policy : Policy) (call : Call ρ) (w : Nat) :
    (call.start policy w).removing = none ∧ (call.start policy w).leaving = none := by
  cases call with
  | dispatchTask cr => cases policy <;> exact ⟨rfl, rfl⟩
  | removeCRoutine crid => exact ⟨rfl, rfl⟩

/-- Coroutine `cr` is in no run queue, with no processor and not registered. -/
structure Retired (setup : Setup ρ π) (s : State ρ π τ) (cr : ρ) : Prop where
  queues : ∀ q prio, (prio, cr) ∉ s.queues q
  processors : ∀ p, (s.processors p).touches ≠ some cr
  idCr : s.idCr (setup.id cr) ≠ some cr

/-- The step registers `cr`. -/
def Registers (setup : Setup ρ π) (s : State ρ π τ) (e : Event ρ π τ) (cr : ρ) : Prop :=
  ∃ t w, e = .caller t ∧ s.callers t = .register cr w ∧ s.idCr (setup.id cr) = none

theorem mem_put {q : RunQueue} {prio prio' : Nat} {cr cr' : ρ} {entries : List (Nat × ρ)}
    (member : (prio', cr') ∈ q.put prio cr entries) : cr' = cr ∨ (prio', cr') ∈ entries := by
  obtain ⟨front, back, rfl, put⟩ := q.put_eq prio cr entries
  rw [put] at member
  simp only [List.mem_append, List.mem_cons, Prod.mk.injEq] at member ⊢
  rcases member with old | ⟨-, rfl⟩ | old
  · exact .inr (.inl old)
  · exact .inl rfl
  · exact .inr (.inr old)

theorem mem_put_of_mem {q : RunQueue} {prio : Nat} {cr : ρ} {e : Nat × ρ} {entries : List (Nat × ρ)}
    (member : e ∈ entries) : e ∈ q.put prio cr entries := by
  obtain ⟨front, back, rfl, put⟩ := q.put_eq prio cr entries
  rw [put]
  simp only [List.mem_append, List.mem_cons] at member ⊢
  exact member.imp_right .inr

section Step
variable {setup : Setup ρ π} {s s' : State ρ π τ} {cr : ρ}

theorem Retired.processor [DecidableEq π] (retired : Retired setup s cr) {p : π} {pc : ProcessorPc ρ}
    (processors : s'.processors = Function.update s.processors p pc) (queues : s'.queues = s.queues)
    (idCr : s'.idCr = s.idCr) (untouched : pc.touches ≠ some cr) : Retired setup s' cr where
  queues := by
    rw [queues]
    exact retired.queues
  processors r := by
    rw [processors]
    by_cases own : r = p
    · subst own
      rw [Function.update_self]
      exact untouched
    · rw [Function.update_of_ne own]
      exact retired.processors r
  idCr := by
    rw [idCr]
    exact retired.idCr

variable [DecidableEq ρ]

/-- A processor comes to a coroutine only through a run queue. -/
theorem ProcessEffect.retired [DecidableEq π] {p : π} (effect : ProcessEffect setup s p s')
    (retired : Retired setup s cr) : Retired setup s' cr := by
  have before := retired.processors p
  cases effect with
  | start | locked | passed | taken | skipped | released => exact retired.processor rfl rfl rfl nofun
  | @looked q i rest prio found here there =>
    refine retired.processor rfl rfl rfl fun same => ?_
    cases same
    exact retired.queues q prio (List.mem_of_getElem? there)
  | acquired here | found here | yielded _ here =>
    rw [here] at before
    exact retired.processor rfl rfl rfl before
  | updated now here next =>
    rw [here] at before
    refine retired.processor rfl rfl rfl ?_
    rcases next with rfl | rfl <;> exact before
  | resumed here next =>
    rw [here] at before
    refine retired.processor rfl rfl rfl ?_
    rcases next with rfl | ⟨rfl, -⟩ <;> exact before

/-- A thread brings a coroutine back only if it registers it. -/
theorem CallerEffect.retired [DecidableEq τ] {t : τ} (effect : CallerEffect setup s t s') (inv : Inv setup s)
    (retired : Retired setup s cr) (kept : ¬ Registers setup s (.caller t) cr) : Retired setup s' cr := by
  have there := inv.threads t
  cases effect with
  | @registered other w here unknown =>
    refine ⟨retired.queues, retired.processors, fun known => ?_⟩
    simp only [State.callerGoto, State.setIdCr] at known
    by_cases own : setup.id cr = setup.id other
    · rw [own, Function.update_self] at known
      cases known
      exact kept ⟨t, w, rfl, here, unknown⟩
    · rw [Function.update_of_ne own] at known
      exact retired.idCr known
  | @unregistered crid w other here known =>
    refine ⟨retired.queues, retired.processors, fun known => ?_⟩
    simp only [State.callerGoto, State.setIdCr, State.setRoutine] at known
    by_cases own : setup.id cr = crid
    · rw [own, Function.update_self] at known
      cases known
    · rw [Function.update_of_ne own] at known
      exact retired.idCr known
  | @enqueued other q w here free =>
    rw [here] at there
    refine ⟨fun q' prio member => ?_, retired.processors, retired.idCr⟩
    simp only [State.callerGoto, State.setQueue] at member
    by_cases own : q' = q
    · subst own
      rw [Function.update_self] at member
      rcases mem_put member with rfl | old
      · exact retired.idCr there.1.1
      · exact retired.queues q' prio old
    · rw [Function.update_of_ne own] at member
      exact retired.queues q' prio member
  | @erased other found q w here =>
    refine ⟨fun q' prio member => ?_, retired.processors, retired.idCr⟩
    simp only [State.callerGoto, State.setQueue] at member
    by_cases own : q' = q
    · subst own
      rw [Function.update_self] at member
      exact retired.queues q' prio (List.mem_of_mem_eraseP member)
    · rw [Function.update_of_ne own] at member
      exact retired.queues q' prio member
  | _ => exact ⟨retired.queues, retired.processors, retired.idCr⟩

theorem step_retired [DecidableEq π] [DecidableEq τ] {e : Event ρ π τ} (inv : Inv setup s)
    (retired : Retired setup s cr) (kept : ¬ Registers setup s e cr) (moved : step setup s e = some s') :
    Retired setup s' cr := by
  cases e with
  | call t call =>
    simp only [step] at moved
    split at moved
    · cases moved
      exact ⟨retired.queues, retired.processors, retired.idCr⟩
    · cases moved
  | caller t => exact (callerStep_effect moved).retired inv retired kept
  | process p now yield => exact (processStep_effect moved).retired retired
  | setUpdateFlag other =>
    cases moved
    exact ⟨retired.queues, retired.processors, retired.idCr⟩

theorem setRoutine_forceStop {other : ρ} {routine : CRoutine}
    (kept : (s.routines other).forceStop = true → routine.forceStop = true)
    (stopped : (s.routines cr).forceStop = true) : ((s.setRoutine other routine).routines cr).forceStop = true := by
  by_cases own : cr = other
  · subst own
    simpa [State.setRoutine] using kept stopped
  · simpa [State.setRoutine, own] using stopped

theorem updateState_forceStop (routine : CRoutine) (now : Nat) :
    (routine.updateState now).forceStop = routine.forceStop := by
  unfold CRoutine.updateState
  split
  · rfl
  · split <;> rfl

theorem resume_forceStop (routine : CRoutine) : routine.resume.2.forceStop = routine.forceStop := by
  unfold CRoutine.resume
  split
  · rfl
  · split <;> rfl

theorem ProcessEffect.forceStop [DecidableEq π] {p : π} (effect : ProcessEffect setup s p s')
    (stopped : (s.routines cr).forceStop = true) : (s'.routines cr).forceStop = true := by
  cases effect with
  | start | locked | looked | passed | found => exact stopped
  | acquired | taken | skipped | yielded | released => exact setRoutine_forceStop id stopped
  | updated now => exact setRoutine_forceStop (updateState_forceStop _ now).trans stopped
  | resumed => exact setRoutine_forceStop (resume_forceStop _).trans stopped

theorem CallerEffect.forceStop [DecidableEq τ] {t : τ} (effect : CallerEffect setup s t s')
    (stopped : (s.routines cr).forceStop = true) : (s'.routines cr).forceStop = true := by
  cases effect with
  | unregistered | found => exact setRoutine_forceStop (fun _ => rfl) stopped
  | acquired | spins | released => exact setRoutine_forceStop id stopped
  | _ => exact stopped

variable [DecidableEq π] [DecidableEq τ] {e : Event ρ π τ}

/-- A coroutine that has been stopped stays so. -/
theorem step_forceStop (moved : step setup s e = some s') (stopped : (s.routines cr).forceStop = true) :
    (s'.routines cr).forceStop = true := by
  cases e with
  | call t call =>
    simp only [step] at moved
    split at moved
    · cases moved
      exact stopped
    · cases moved
  | caller t => exact (callerStep_effect moved).forceStop stopped
  | process p now yield => exact (processStep_effect moved).forceStop stopped
  | setUpdateFlag other =>
    cases moved
    exact setRoutine_forceStop id stopped

/-- Coroutine `cr` has been stopped and does not run. -/
structure Stopped (s : State ρ π τ) (cr : ρ) : Prop where
  forceStop : (s.routines cr).forceStop = true
  processors : ∀ p, s.processors p ≠ .running cr

theorem step_stopped (stopped : Stopped s cr) (moved : step setup s e = some s') : Stopped s' cr := by
  refine ⟨step_forceStop moved stopped.forceStop, fun r => ?_⟩
  cases e with
  | call t call =>
    simp only [step] at moved
    split at moved
    · cases moved
      exact stopped.processors r
    · cases moved
  | caller t => cases callerStep_effect moved <;> exact stopped.processors r
  | process p now yield =>
    have keep {pc : ProcessorPc ρ} (other : pc ≠ .running cr) : Function.update s.processors p pc r ≠ .running cr := by
      by_cases own : r = p
      · subst own
        rw [Function.update_self]
        exact other
      · rw [Function.update_of_ne own]
        exact stopped.processors r
    cases processStep_effect moved with
    | resumed here next =>
      refine keep ?_
      rcases next with rfl | ⟨rfl, going⟩
      · rintro ⟨⟩
      · rintro ⟨⟩
        rw [stopped.forceStop] at going
        cases going
    | updated now here next =>
      refine keep ?_
      rcases next with rfl | rfl <;> rintro ⟨⟩
    | _ =>
      refine keep ?_
      rintro ⟨⟩
  | setUpdateFlag other =>
    cases moved
    exact stopped.processors r

end Step

section Removal
variable [Fintype π]

structure Removal (setup : Setup ρ π) (s : State ρ π τ) : Prop where
  flags : Flags s
  locks : Locks s
  seen : ∀ p cr q i rest, s.processors p = .acquire cr q i rest → ∃ prio, (prio, cr) ∈ s.queues q
  stopped : ∀ t cr, (s.callers t).removing = some cr → (s.routines cr).forceStop = true
  retired : ∀ t cr, (s.callers t).leaving = some cr → Retired setup s cr

variable {setup : Setup ρ π} {s s' : State ρ π τ}

/-- The thread that erases a coroutine from its run queue has its flag, so no processor has. -/
theorem Removal.erased (removal : Removal setup s) (inv : Inv setup s) {t : τ} {cr found : ρ}
    {q : RunQueue} {w : Nat} (here : s.callers t = .erase cr found q w)
    (seen : ∀ p q' i rest, s.processors p = .acquire cr q' i rest → ∃ prio, (prio, cr) ∈
      (s.setQueue q ((s.queues q).eraseP fun e => setup.id e.2 = setup.id cr)).queues q') :
    Retired setup (s.setQueue q ((s.queues q).eraseP fun e => setup.id e.2 = setup.id cr)) cr := by
  have there := inv.threads t
  rw [here] at there
  obtain ⟨rfl, unknown, absent⟩ := at_erased there
  have gone : ∀ q' prio, (prio, found) ∉
      (s.setQueue q ((s.queues q).eraseP fun e => setup.id e.2 = setup.id found)).queues q' := by
    intro q' prio member
    have listed : found ∈ setup.members _ (setup.id found) := (mem_members rfl).mpr ⟨prio, member⟩
    rw [absent q'] at listed
    cases listed
  refine ⟨gone, fun p touches => ?_, fun known => ?_⟩
  · have free : (s.processors p).has ≠ some found := by
      intro has
      have same := removal.flags.one (.inl p) (.inr t) found has (by simp [holder, here, CallerPc.has])
      cases same
    have touches : (s.processors p).touches = some found := touches
    cases point : s.processors p with
    | acquire other q' i rest =>
      rw [point] at touches
      cases touches
      obtain ⟨prio, member⟩ := seen p q' i rest point
      exact gone q' prio member
    | _ =>
      rw [point] at touches free
      exact free touches
  · rw [unknown] at known
    cases known

variable [DecidableEq ρ]

theorem ProcessEffect.seen [DecidableEq π] {p : π} (effect : ProcessEffect setup s p s') (removal : Removal setup s)
    (r : π) (cr : ρ) (q : RunQueue) (i : Nat) (rest : List RunQueue) (there : s'.processors r = .acquire cr q i rest) :
    ∃ prio, (prio, cr) ∈ s'.queues q := by
  by_cases own : r = p
  · subst own
    cases effect with
    | looked here found =>
      simp only [State.processorGoto, Function.update_self] at there
      cases there
      exact ⟨_, List.mem_of_getElem? found⟩
    | updated now here next => rcases next with rfl | rfl <;> simp [State.processorGoto] at there
    | resumed here next => rcases next with rfl | ⟨rfl, -⟩ <;> simp [State.processorGoto] at there
    | _ => simp [State.processorGoto] at there
  · have before : s.processors r = .acquire cr q i rest ∧ s'.queues = s.queues := by
      cases effect <;> simp only [State.processorGoto, State.setRoutine, State.setLockNum,
        Function.update_of_ne own] at there <;> exact ⟨there, rfl⟩
    rw [before.2]
    exact removal.seen r cr q i rest before.1

theorem CallerEffect.seen [DecidableEq τ] {t : τ} (effect : CallerEffect setup s t s') (removal : Removal setup s)
    (r : π) (cr : ρ) (q : RunQueue) (i : Nat) (rest : List RunQueue) (there : s'.processors r = .acquire cr q i rest) :
    ∃ prio, (prio, cr) ∈ s'.queues q := by
  cases effect with
  | @enqueued other q' w here free =>
    obtain ⟨prio, member⟩ := removal.seen r cr q i rest there
    refine ⟨prio, ?_⟩
    simp only [State.callerGoto, State.setQueue]
    by_cases own : q = q'
    · subst own
      rw [Function.update_self]
      exact mem_put_of_mem member
    · rw [Function.update_of_ne own]
      exact member
  | @erased other found q' w here =>
    obtain ⟨prio, member⟩ := removal.seen r cr q i rest there
    refine ⟨prio, ?_⟩
    have reads : (s.processors r).reads = some q := congrArg ProcessorPc.reads there
    -- the processor has the read lock of the run queue, so it is not the one that shrinks
    have apart : q ≠ q' := by
      rintro rfl
      exact removal.locks.apart (t := t) reads (by rw [here]; rfl)
    simp only [State.callerGoto, State.setQueue]
    rw [Function.update_of_ne apart]
    exact member
  | _ => exact removal.seen r cr q i rest there

theorem ProcessEffect.removal [DecidableEq π] {p : π} (effect : ProcessEffect setup s p s')
    (removal : Removal setup s) : Removal setup s' := by
  have callers : s'.callers = s.callers := by cases effect <;> rfl
  refine ⟨effect.flags removal.flags, effect.locks removal.locks, effect.seen removal, fun t cr removing => ?_,
    fun t cr leaving => ?_⟩
  · rw [callers] at removing
    exact effect.forceStop (removal.stopped t cr removing)
  · rw [callers] at leaving
    exact effect.retired (removal.retired t cr leaving)

variable [DecidableEq τ] {t : τ}

omit [Fintype π] in
/-- A thread that removes a coroutine did so before, or has just stopped it. -/
theorem CallerEffect.removing (effect : CallerEffect setup s t s') :
    ∃ pc, s'.callers = Function.update s.callers t pc ∧
      ∀ cr, pc.removing = some cr → (s.callers t).removing = some cr ∨ (s'.routines cr).forceStop = true := by
  cases effect with
  | @unregistered crid w cr here known =>
    refine ⟨_, rfl, fun other removing => .inr ?_⟩
    cases removing
    simp [State.callerGoto, State.setIdCr, State.setRoutine, CRoutine.stop]
  | @locked call w here =>
    refine ⟨_, rfl, fun other removing => ?_⟩
    rw [(call.start_removing setup.policy w).1] at removing
    cases removing
  | found here | acquired here | spins here | erased here | released here | unlocked here =>
    exact ⟨_, rfl, fun other removing => .inl ((congrArg CallerPc.removing here).trans removing)⟩
  | _ =>
    refine ⟨_, rfl, fun other removing => ?_⟩
    cases removing

theorem CallerEffect.leaving (effect : CallerEffect setup s t s') (removal : Removal setup s) (inv : Inv setup s) :
    ∃ pc, s'.callers = Function.update s.callers t pc ∧ ∀ cr, pc.leaving = some cr → Retired setup s' cr := by
  have seen := effect.seen removal
  have kept : ∀ cr, (s.callers t).leaving = some cr → Retired setup s' cr := by
    intro cr leaving
    refine effect.retired inv (removal.retired t cr leaving) ?_
    rintro ⟨u, w, same, here, -⟩
    cases same
    rw [here] at leaving
    cases leaving
  cases effect with
  | @locked call w here =>
    refine ⟨_, rfl, fun other leaving => ?_⟩
    rw [(call.start_removing setup.policy w).2] at leaving
    cases leaving
  | @erased cr found q w here =>
    refine ⟨_, rfl, fun other leaving => ?_⟩
    cases leaving
    have retired := removal.erased inv here fun p q' i rest there => seen p cr q' i rest there
    exact ⟨retired.queues, retired.processors, retired.idCr⟩
  | released here | unlocked here =>
    exact ⟨_, rfl, fun other leaving => kept other ((congrArg CallerPc.leaving here).trans leaving)⟩
  | _ =>
    refine ⟨_, rfl, fun other leaving => ?_⟩
    cases leaving

theorem CallerEffect.removal (effect : CallerEffect setup s t s') (removal : Removal setup s) (inv : Inv setup s) :
    Removal setup s' := by
  refine ⟨effect.flags removal.flags, effect.locks removal.locks, effect.seen removal, fun u cr removing => ?_,
    fun u cr leaving => ?_⟩
  · obtain ⟨pc, callers, own⟩ := effect.removing
    rw [callers] at removing
    by_cases same : u = t
    · subst same
      rw [Function.update_self] at removing
      exact (own cr removing).elim (fun before => effect.forceStop (removal.stopped u cr before)) id
    · rw [Function.update_of_ne same] at removing
      exact effect.forceStop (removal.stopped u cr removing)
  · obtain ⟨pc, callers, own⟩ := effect.leaving removal inv
    rw [callers] at leaving
    by_cases same : u = t
    · subst same
      rw [Function.update_self] at leaving
      exact own cr leaving
    · rw [Function.update_of_ne same] at leaving
      refine effect.retired inv (removal.retired u cr leaving) ?_
      -- the thread that removes the coroutine has its mutex, so no other thread registers it
      rintro ⟨v, w, moves, here, -⟩
      cases moves
      exact same (inv.mutexes.inside_alone (inside_of_leaving leaving) (.of_eq here rfl rfl))

variable [DecidableEq π]

theorem step_removal {e : Event ρ π τ} (removal : Removal setup s) (inv : Inv setup s)
    (moved : step setup s e = some s') : Removal setup s' := by
  have flags := step_flags removal.flags moved
  cases e with
  | call t call =>
    simp only [step] at moved
    split at moved
    · rename_i here
      cases moved
      have callers : ∀ u cr, ((s.callerGoto t (.getMutex call)).callers u).removing = some cr ∨
          ((s.callerGoto t (.getMutex call)).callers u).leaving = some cr → u ≠ t := by
        rintro u cr either rfl
        simp [State.callerGoto, CallerPc.removing, CallerPc.leaving] at either
      refine ⟨flags, removal.locks.caller rfl rfl rfl (by rw [here]; rfl), removal.seen, fun u cr removing => ?_,
        fun u cr leaving => ?_⟩
      · have other := callers u cr (.inl removing)
        simp only [State.callerGoto, Function.update_of_ne other] at removing
        exact removal.stopped u cr removing
      · have other := callers u cr (.inr leaving)
        simp only [State.callerGoto, Function.update_of_ne other] at leaving
        have retired := removal.retired u cr leaving
        exact ⟨retired.queues, retired.processors, retired.idCr⟩
    · cases moved
  | caller t => exact (callerStep_effect moved).removal removal inv
  | process p now yield => exact (processStep_effect moved).removal removal
  | setUpdateFlag cr =>
    cases moved
    refine ⟨flags, ⟨removal.locks.counts, removal.locks.exclusive⟩, removal.seen, fun t other removing => ?_,
      fun t other leaving => ?_⟩
    · exact setRoutine_forceStop id (removal.stopped t other removing)
    · have retired := removal.retired t other leaving
      exact ⟨retired.queues, retired.processors, retired.idCr⟩

omit [Fintype π] in
theorem flags_init : Flags (machine τ setup).init := by
  have none : ∀ i, holder (machine τ setup).init i = none := by
    rintro (p | t) <;> rfl
  refine ⟨fun i cr held => ?_, fun i j cr held _ => ?_⟩ <;>
  · rw [none] at held
    cases held

theorem removal_init : Removal setup (machine τ setup).init where
  flags := flags_init
  locks := by
    refine ⟨fun q => .inl ?_, nofun, nofun⟩
    have none : Config.total (ProcessorPc.reading q) (machine τ setup).init.processors = 0 :=
      Config.total_eq_zero.mpr fun p => rfl
    rw [none]
    rfl
  seen := nofun
  stopped := nofun
  retired := nofun

end Removal

/-- The processor is in `Resume` of the coroutine. -/
def ProcessorPc.Resumes (pc : ProcessorPc ρ) (cr : ρ) : Prop :=
  pc = .resume cr ∨ pc = .running cr

/-- The processor is in `UpdateState` of the coroutine. -/
def ProcessorPc.Updates (pc : ProcessorPc ρ) (cr : ρ) : Prop :=
  ∃ q i rest, pc = .updateState cr q i rest

/-- The step returns true from the `RemoveCRoutine` that has taken `cr` from the registry. -/
def ReturnsTrue (s : State ρ π τ) (e : Event ρ π τ) (cr : ρ) : Prop :=
  ∃ t w, e = .caller t ∧ s.callers t = .answer (.removed cr) w

theorem ProcessorPc.Resumes.has {pc : ProcessorPc ρ} {cr : ρ} (resumes : pc.Resumes cr) : pc.has = some cr := by
  rcases resumes with rfl | rfl <;> rfl

/-- A coroutine that is resumed is resumed by one processor, and nobody updates its state. -/
theorem Flags.resumes_alone {s : State ρ π τ} (flags : Flags s) {p r : π} {cr : ρ}
    (resumes : (s.processors p).Resumes cr) :
    ((s.processors r).Resumes cr → r = p) ∧ ¬ (s.processors r).Updates cr := by
  have alone : (s.processors r).has = some cr → r = p := by
    intro has
    exact Sum.inl.inj (flags.one (.inl r) (.inl p) cr has resumes.has)
  refine ⟨fun again => alone again.has, ?_⟩
  rintro ⟨q, i, rest, updates⟩
  cases alone (by rw [updates]; rfl)
  rw [updates] at resumes
  rcases resumes with resumes | resumes <;> cases resumes

section Run
variable [DecidableEq ρ] [DecidableEq π] [DecidableEq τ] {setup : Setup ρ π} {n : Nat} {state : Nat → State ρ π τ}
  {event : Nat → Event ρ π τ}

theorem run_flags (run : (machine τ setup).Run n state event) {i : Nat} (bound : i ≤ n) : Flags (state i) :=
  (run.reach bound).invariant flags_init fun _ _ _ flags moved => step_flags flags moved

variable [Fintype π]

theorem run_removal (run : (machine τ setup).Run n state event)
    (keeps : ∀ i, i < n → Keeps setup (state i) (event i)) {i : Nat} (bound : i ≤ n) :
    Inv setup (state i) ∧ Removal setup (state i) := by
  refine (run.reachWhen keeps bound).invariant (P := fun s => Inv setup s ∧ Removal setup s) ⟨inv_init, removal_init⟩ ?_
  rintro s e s' ⟨inv, removal⟩ kept moved
  exact ⟨step_inv inv kept moved, step_removal removal inv moved⟩

/-- In every run a coroutine is resumed by at most one processor at a time, and its state is not updated
meanwhile. Once `RemoveCRoutine` has returned true for a coroutine, in a run in which none is clobbered while it
is registered, no processor switches to it again; and as long as it is not registered again, it is in no run queue
and no processor resumes it. -/
theorem removed_not_resumed (run : (machine τ setup).Run n state event) :
    (∀ i, i ≤ n → ∀ p r cr, ((state i).processors p).Resumes cr →
      (((state i).processors r).Resumes cr → r = p) ∧ ¬ ((state i).processors r).Updates cr) ∧
    ((∀ i, i < n → Keeps setup (state i) (event i)) → ∀ i j cr, i < j → j ≤ n → ReturnsTrue (state i) (event i) cr →
      (∀ p, (state j).processors p ≠ .running cr) ∧
      ((∀ k, i < k → k < j → ¬ Registers setup (state k) (event k) cr) →
        (∀ q prio, (prio, cr) ∉ (state j).queues q) ∧ ∀ p, ¬ ((state j).processors p).Resumes cr)) := by
  refine ⟨fun i bound p r cr resumes => (run_flags run bound).resumes_alone resumes, ?_⟩
  intro keeps i j cr before bound returns
  obtain ⟨t, w, returning, here⟩ := returns
  have known : ∀ k, k ≤ n → Inv setup (state k) ∧ Removal setup (state k) := fun k => run_removal run keeps
  obtain ⟨-, removal⟩ := known i (by omega)
  have retired := removal.retired t cr (by rw [here]; rfl)
  have stopped : Stopped (state i) cr := by
    refine ⟨removal.stopped t cr (by rw [here]; rfl), fun p running => retired.processors p ?_⟩
    rw [running]
    rfl
  have stays : ∀ k, i + 1 ≤ k → k ≤ j → Stopped (state k) cr ∧
      ((∀ l, i < l → l < k → ¬ Registers setup (state l) (event l) cr) → Retired setup (state k) cr) := by
    intro k after
    induction k, after using Nat.le_induction with
    | base =>
      intro within
      have moved := run.next i (by omega)
      refine ⟨step_stopped stopped moved, fun _ => step_retired (known i (by omega)).1 retired ?_ moved⟩
      rintro ⟨u, v, moves, registering, -⟩
      rw [returning] at moves
      cases moves
      rw [here] at registering
      cases registering
    | succ k after ih =>
      intro within
      obtain ⟨stopped, retired⟩ := ih (by omega)
      have moved := run.next k (by omega)
      refine ⟨step_stopped stopped moved, fun unregistered => ?_⟩
      exact step_retired (known k (by omega)).1 (retired fun l lower upper => unregistered l lower (by omega))
        (unregistered k (by omega) (by omega)) moved
  obtain ⟨stopped, retired⟩ := stays j before le_rfl
  refine ⟨stopped.processors, fun unregistered => ?_⟩
  have away := retired unregistered
  refine ⟨away.queues, fun p resumes => away.processors p ?_⟩
  rcases resumes with resumes | resumes <;> rw [resumes] <;> rfl

end Run

/-- A classic scheduler assigns nothing to a coroutine that is registered. -/
theorem keeps_of_classic {setup : Setup ρ π} {crConfs : String → Option ClassicTask} {groups : List String}
    (classic : setup.policy = .classic crConfs groups) (s : State ρ π τ) (e : Event ρ π τ) : Keeps setup s e := by
  cases e with
  | caller t =>
    intro cr _ _
    rw [classic]
    exact id
  | call | process | setUpdateFlag => trivial

/-- One coroutine and one processor in the one group of a classic scheduler. -/
def oneRoutine : Setup Unit Unit where
  policy := .classic (fun _ => none) [defaultGroupName]
  id _ := 7
  name _ := "task"
  created _ := ⟨"", 19, -1⟩
  context _ := .classic defaultGroupName

/-- The coroutine is removed while it runs: `RemoveCRoutine` waits for its flag. -/
def removedWhileRunning : List (Event Unit Unit Unit) :=
  Event.call () (.dispatchTask ()) :: List.replicate 7 (Event.caller ()) ++
    List.replicate 6 (Event.process () 0 none) ++
    Event.call () (.removeCRoutine 7) :: List.replicate 5 (Event.caller ()) ++
    List.replicate 2 (Event.process () 0 none) ++ List.replicate 5 (Event.caller ()) ++
    List.replicate 2 (Event.process () 0 none)

theorem removedWhileRunning_retired :
    let state := (machine Unit oneRoutine).stateAt removedWhileRunning
    (state 20).processors () = .running () ∧ (state 20).callers () = .acquire () () (.classic defaultGroupName 19) 0 ∧
      (∀ q prio, (prio, ()) ∉ (state 29).queues q) ∧ (∀ p, ¬ ((state 29).processors p).Resumes ()) ∧
      ∀ p, (state 29).processors p ≠ .running () := by
  have run : (machine Unit oneRoutine).Run 29 _ _ :=
    Machine.exec_run removedWhileRunning rfl (.call () (.removeCRoutine 7))
  have later := (removed_not_resumed run).2 (fun i _ => keeps_of_classic rfl _ _) 26 29 () (by omega) le_rfl
    ⟨(), 0, rfl, rfl⟩
  refine ⟨rfl, rfl, ?_⟩
  have away := later.2 ?_
  · exact ⟨away.1, away.2, later.1⟩
  · rintro k lower upper ⟨t, w, moves, -⟩
    obtain rfl | rfl : k = 27 ∨ k = 28 := by omega
    · cases moves
    · cases moves

/-- The coroutine is removed and the same object is dispatched again. -/
def dispatchedAgain : List (Event Unit Unit Unit) :=
  Event.call () (.dispatchTask ()) :: List.replicate 7 (Event.caller ()) ++
    Event.call () (.removeCRoutine 7) :: List.replicate 9 (Event.caller ()) ++
    Event.call () (.dispatchTask ()) :: List.replicate 6 (Event.caller ())

theorem dispatchedAgain_queued :
    let state := (machine Unit oneRoutine).stateAt dispatchedAgain
    let event := fun i => dispatchedAgain.getD i (.setUpdateFlag ())
    (machine Unit oneRoutine).Run 25 state event ∧ ReturnsTrue (state 17) (event 17) () ∧
      (19, ()) ∈ (state 25).queues (.classic defaultGroupName 19) :=
  ⟨Machine.exec_run dispatchedAgain rfl (.setUpdateFlag ()), ⟨(), 0, rfl, rfl⟩, by decide⟩

end CyberRT.Scheduler

import CyberRT.Lib.Flags
import CyberRT.Task.TaskManager

namespace CyberRT.TaskManager
open Concur
variable {α κ π T : Type}

def CallerPc.inner : CallerPc κ T → BoundedQueue.Local T
  | .queue l => l
  | .notify .. => .idle

def LoopPc.inner : LoopPc T → BoundedQueue.Local T
  | .queue l => l
  | .runTask | .swapContext => .idle

/-- The queue with the callers and the coroutines that use it. -/
def State.queueOf (s : State α κ π T) : Config (α ⊕ κ) (BoundedQueue T) (BoundedQueue.Local T) :=
  ⟨s.queue, Sum.elim (fun a => (s.callers a).inner) fun c => (s.loops c).inner⟩

abbrev QueueOk (s : State α κ π T) : Prop :=
  Config.Holds BoundedQueue.Inv BoundedQueue.At BoundedQueue.Apart s.queueOf

/-- A coroutine only takes from the queue. -/
def LoopPc.Takes : LoopPc T → Prop
  | .queue .idle | .queue .deqLoadHead | .queue (.deqLoadCommit _) | .queue (.deqRead _) | .queue (.deqCasHead _ _)
  | .queue (.deqReturn _) | .runTask | .swapContext => True
  | _ => False

/-- A coroutine that a processor has acquired is that processor's alone, and its loop moves only on a processor
that has switched to it. -/
structure Held (s : State α κ π T) : Prop where
  takes : ∀ c, (s.loops c).Takes
  locked : ∀ p c pc, s.processors p = some (c, pc) → (s.routines c).lock = true
  one : ∀ p q c pc pc', s.processors p = some (c, pc) → s.processors q = some (c, pc') → p = q
  runs : ∀ c, s.loops c ≠ .queue .idle → ∃ p, s.processors p = some (c, .running)
  awake : ∀ p c, s.processors p = some (c, .running) → s.loops c = .swapContext ∨ (s.routines c).state ≠ .dataWait

structure Inv (s : State α κ π T) : Prop where
  queue : QueueOk s
  held : Held s
  attended : 0 < s.backlog → s.Attended

theorem Inv.not_stranded_task {s : State α κ π T} (inv : Inv s) : ¬ s.Stranded := by
  rintro ⟨returned, waiting, asleep⟩
  rcases inv.attended waiting with ⟨a, notifies⟩ | ⟨c, pending | looks⟩
  · rw [State.Notifies, returned a] at notifies
    exact notifies
  · exact (asleep c).2.2 pending
  · obtain ⟨suspended, state, -⟩ := asleep c
    have start : s.loops c = .queue .idle := by
      by_contra moved
      obtain ⟨p, running⟩ := inv.held.runs c moved
      exact suspended p running
    rw [State.Looks, start] at looks
    exact looks state

/-- The flag of a coroutine excludes the processors from each other. -/
theorem Held.exclusive {s : State α κ π T} (held : Held s) :
    Exclusive (fun c => (s.routines c).lock) fun p => (s.processors p).map Prod.fst where
  set p c has := by
    obtain ⟨⟨c, pc⟩, there, rfl⟩ := Option.map_eq_some_iff.mp has
    exact held.locked p c pc there
  one p q c first second := by
    obtain ⟨⟨c, pc⟩, there, rfl⟩ := Option.map_eq_some_iff.mp first
    obtain ⟨⟨d, pc'⟩, there', same⟩ := Option.map_eq_some_iff.mp second
    cases same
    exact held.one p q c pc pc' there there'

/-- What the callers do to the coroutines: they change neither a lock nor a state. -/
theorem Held.callers {s s' : State α κ π T} (held : Held s) (loops : s'.loops = s.loops)
    (processors : s'.processors = s.processors)
    (routines : ∀ c, (s'.routines c).lock = (s.routines c).lock ∧ (s'.routines c).state = (s.routines c).state) :
    Held s' where
  takes := by
    rw [loops]
    exact held.takes
  locked p c pc there := by
    rw [processors] at there
    rw [(routines c).1]
    exact held.locked p c pc there
  one := by
    rw [processors]
    exact held.one
  runs := by
    rw [loops, processors]
    exact held.runs
  awake p c there := by
    rw [processors] at there
    rw [loops, (routines c).2]
    exact held.awake p c there

section Held
variable [DecidableEq κ]

/-- The loop of a coroutine that runs moves on. -/
theorem Held.loop {s s' : State α κ π T} (held : Held s) {p : π} {c : κ} (running : s.processors p = some (c, .running))
    {pc : LoopPc T} (loops : s'.loops = Function.update s.loops c pc) (takes : pc.Takes)
    (processors : s'.processors = s.processors) (locks : ∀ d, (s'.routines d).lock = (s.routines d).lock)
    (states : ∀ d, d ≠ c → (s'.routines d).state = (s.routines d).state)
    (awake : pc = .swapContext ∨ (s'.routines c).state ≠ .dataWait) : Held s' where
  takes d := by
    rw [loops]
    by_cases same : d = c
    · subst same
      rw [Function.update_self]
      exact takes
    · rw [Function.update_of_ne same]
      exact held.takes d
  locked q d pc there := by
    rw [processors] at there
    rw [locks]
    exact held.locked q d pc there
  one := by
    rw [processors]
    exact held.one
  runs d moved := by
    rw [processors]
    by_cases same : d = c
    · subst same
      exact ⟨p, running⟩
    · rw [loops, Function.update_of_ne same] at moved
      exact held.runs d moved
  awake q d there := by
    rw [processors] at there
    by_cases same : d = c
    · subst same
      rw [loops, Function.update_self]
      exact awake
    · rw [loops, Function.update_of_ne same, states d same]
      exact held.awake q d there

variable [DecidableEq π]

theorem Held.exclusive_swap {s : State α κ π T} (held : Held s) {p : π} {c : κ} {pc : LoopPc T}
    (running : s.processors p = some (c, .running)) :
    Exclusive (fun d => (((s.loopGoto c pc).processorGoto p (some (c, .release))).routines d).lock)
      fun q => (((s.loopGoto c pc).processorGoto p (some (c, .release))).processors q).map Prod.fst := by
  refine held.exclusive.goes (f := Option.map Prod.fst) (fun _ => rfl) ?_
  rw [running]
  rfl

/-- The coroutine is suspended at the start of its loop, and its processor is about to release it. -/
theorem Held.swap {s : State α κ π T} (held : Held s) {p : π} {c : κ} (running : s.processors p = some (c, .running)) :
    Held ((s.loopGoto c (.queue .idle)).processorGoto p (some (c, .release))) where
  takes d := by
    by_cases same : d = c
    · subst same
      simp [State.loopGoto, State.processorGoto, LoopPc.Takes]
    · simpa [State.loopGoto, State.processorGoto, same] using held.takes d
  locked q d _ there := (held.exclusive_swap running).set q d (congrArg (Option.map Prod.fst) there)
  one q r d _ _ first second :=
    (held.exclusive_swap running).one q r d (congrArg (Option.map Prod.fst) first)
      (congrArg (Option.map Prod.fst) second)
  runs d moved := by
    have different : d ≠ c := by
      rintro rfl
      exact moved (by simp [State.loopGoto, State.processorGoto])
    have old : s.loops d ≠ .queue .idle := by simpa [State.loopGoto, State.processorGoto, different] using moved
    obtain ⟨q, there⟩ := held.runs d old
    have other : q ≠ p := by
      rintro rfl
      rw [running] at there
      cases there
      exact different rfl
    exact ⟨q, by simpa [State.loopGoto, State.processorGoto, other] using there⟩
  awake q d there := by
    have other : q ≠ p := by
      rintro rfl
      simp [State.processorGoto] at there
    have there : s.processors q = some (d, .running) := by
      simpa [State.loopGoto, State.processorGoto, other] using there
    have different : d ≠ c := fun same => other (held.one q p c _ _ (same ▸ there) running)
    simpa [State.loopGoto, State.processorGoto, different] using held.awake q d there

omit [DecidableEq κ] [DecidableEq π] in
theorem holding_eq_some {c d : κ} {pc pc' : Processor.Pc} :
    holding c pc = some (d, pc') ↔ pc ≠ .acquire ∧ c = d ∧ pc = pc' := by
  cases pc <;> simp [holding]

omit [DecidableEq κ] [DecidableEq π] in
theorem holding_fst (c : κ) (pc : Processor.Pc) :
    (holding c pc).map Prod.fst = if pc = .acquire then none else some c := by
  cases pc <;> rfl

/-- A processor takes the flag of the coroutine, keeps it, clears it or finds it taken. -/
theorem Held.exclusive_access {s : State α κ π T} (held : Held s) {p : π} {c : κ} {pc : Processor.Pc} (now : Nat)
    (here : s.processors p = none ∧ pc = .acquire ∨ s.processors p = some (c, pc)) :
    Exclusive (fun d => (Function.update s.routines c (pc.act (s.routines c) now).1 d).lock)
      fun q => (Function.update s.processors p (holding c (pc.act (s.routines c) now).2) q).map Prod.fst := by
  have others : ∀ d, d ≠ c →
      (Function.update s.routines c (pc.act (s.routines c) now).1 d).lock = (s.routines d).lock := by
    intro d different
    rw [Function.update_of_ne different]
  have stay : ∀ q, q ≠ p →
      (Function.update s.processors p (holding c (pc.act (s.routines c) now).2) q).map Prod.fst =
        (s.processors q).map Prod.fst := by
    intro q other
    rw [Function.update_of_ne other]
  have has : (Function.update s.processors p (holding c (pc.act (s.routines c) now).2) p).map Prod.fst =
      if (pc.act (s.routines c) now).2 = .acquire then none else some c := by
    rw [Function.update_self, holding_fst]
  have before : pc ≠ .acquire → (s.routines c).lock = true := by
    intro later
    rcases here with ⟨-, first⟩ | here
    · exact absurd first later
    · exact held.locked p c pc here
  by_cases leaves : (pc.act (s.routines c) now).2 = .acquire
  · rw [if_pos leaves] at has
    rcases here with ⟨nothing, rfl⟩ | here
    · refine held.exclusive.keep ?_ others (by rw [has, nothing]; rfl) stay
      rw [Function.update_self, Processor.Pc.act_acquire_lock leaves]
      rfl
    · exact held.exclusive.release (by rw [here]; rfl) others has stay
  · rw [if_neg leaves] at has
    obtain ⟨taken, free⟩ := Processor.Pc.act_lock before leaves
    rcases here with ⟨-, rfl⟩ | here
    · exact held.exclusive.acquire (free rfl) (by rw [Function.update_self, taken]) others has stay
    · refine held.exclusive.keep ?_ others (by rw [has, here]; rfl) stay
      rw [Function.update_self, taken, held.locked p c pc here]

/-- A processor that is not running the coroutine accesses it. -/
theorem Held.access {s : State α κ π T} (held : Held s) {p : π} {c : κ} {pc : Processor.Pc} (now : Nat)
    (notRunning : pc ≠ .running) (here : s.processors p = none ∧ pc = .acquire ∨ s.processors p = some (c, pc)) :
    Held ((s.setRoutine c (pc.act (s.routines c) now).1).processorGoto p
      (holding c (pc.act (s.routines c) now).2)) where
  takes := held.takes
  locked q d _ there := (held.exclusive_access now here).set q d (congrArg (Option.map Prod.fst) there)
  one q r d _ _ first second :=
    (held.exclusive_access now here).one q r d (congrArg (Option.map Prod.fst) first)
      (congrArg (Option.map Prod.fst) second)
  runs d moved := by
    obtain ⟨q, running⟩ := held.runs d moved
    have other : q ≠ p := by
      rintro rfl
      rw [running] at here
      rcases here with ⟨none, -⟩ | same
      · cases none
      · cases same
        exact notRunning rfl
    exact ⟨q, by simpa [State.processorGoto, State.setRoutine, other] using running⟩
  awake q d there := by
    by_cases same : q = p
    · subst same
      simp only [State.processorGoto, Function.update_self, holding_eq_some] at there
      obtain ⟨-, rfl, switched⟩ := there
      have ready := Processor.Pc.act_running notRunning switched
      exact .inr (by simp [State.processorGoto, State.setRoutine, ready])
    · simp only [State.processorGoto, State.setRoutine, Function.update_of_ne same] at there ⊢
      have awake := held.awake q d there
      by_cases mine : d = c
      · subst mine
        rcases here with ⟨-, rfl⟩ | here
        · simpa [Processor.Pc.act, CRoutine.acquire] using awake
        · exact absurd (held.one q p d _ pc there here) same
      · rw [Function.update_of_ne mine]
        exact awake

end Held

section Step
variable [DecidableEq α] [DecidableEq κ]

theorem queueOf_callerGoto (s : State α κ π T) (a : α) (pc : CallerPc κ T) (queue : BoundedQueue T) :
    ({ s with queue := queue }.callerGoto a pc).queueOf =
      ⟨queue, Function.update s.queueOf.thread (.inl a) pc.inner⟩ := by
  refine congrArg (Config.mk queue) ?_
  rw [State.queueOf, Sum.update_elim_inl]
  congr 1
  funext b
  exact Function.apply_update (fun _ => CallerPc.inner) s.callers a pc b

theorem queueOf_loopGoto (s : State α κ π T) (c : κ) (pc : LoopPc T) (queue : BoundedQueue T) :
    ({ s with queue := queue }.loopGoto c pc).queueOf =
      ⟨queue, Function.update s.queueOf.thread (.inr c) pc.inner⟩ := by
  refine congrArg (Config.mk queue) ?_
  rw [State.queueOf, Sum.update_elim_inr]
  congr 1
  funext d
  exact Function.apply_update (fun _ => LoopPc.inner) s.loops c pc d

/-- A step of a caller inside the queue keeps what is known of the queue. -/
theorem QueueOk.caller {s : State α κ π T} (ok : QueueOk s) {a : α} {pc : CallerPc κ T} {queue : BoundedQueue T}
    (choice : BoundedQueue.Choice T)
    (moved : BoundedQueue.act s.queue (s.callers a).inner choice = some (queue, pc.inner)) :
    QueueOk ({ s with queue := queue }.callerGoto a pc) := by
  have move : Config.move BoundedQueue.act s.queueOf (.inl a, choice) =
      some ({ s with queue := queue }.callerGoto a pc).queueOf :=
    Config.move_eq_some.mpr ⟨queue, pc.inner, moved, queueOf_callerGoto s a pc queue⟩
  exact BoundedQueue.outline.move ok move

theorem QueueOk.loop {s : State α κ π T} (ok : QueueOk s) {c : κ} {pc : LoopPc T} {queue : BoundedQueue T}
    (choice : BoundedQueue.Choice T)
    (moved : BoundedQueue.act s.queue (s.loops c).inner choice = some (queue, pc.inner)) :
    QueueOk ({ s with queue := queue }.loopGoto c pc) := by
  have move : Config.move BoundedQueue.act s.queueOf (.inr c, choice) =
      some ({ s with queue := queue }.loopGoto c pc).queueOf :=
    Config.move_eq_some.mpr ⟨queue, pc.inner, moved, queueOf_loopGoto s c pc queue⟩
  exact BoundedQueue.outline.move ok move

/-- A step outside of the queue. -/
theorem QueueOk.callerOutside {s : State α κ π T} (ok : QueueOk s) {a : α} {pc : CallerPc κ T}
    (same : pc.inner = (s.callers a).inner) : QueueOk (s.callerGoto a pc) := by
  have unmoved : (s.callerGoto a pc).queueOf = s.queueOf := by
    refine (queueOf_callerGoto s a pc s.queue).trans (congrArg (Config.mk s.queue) ?_)
    rw [same]
    exact Function.update_eq_self (Sum.inl a) s.queueOf.thread
  rw [QueueOk, unmoved]
  exact ok

theorem QueueOk.loopOutside {s : State α κ π T} (ok : QueueOk s) {c : κ} {pc : LoopPc T}
    (same : pc.inner = (s.loops c).inner) : QueueOk (s.loopGoto c pc) := by
  have unmoved : (s.loopGoto c pc).queueOf = s.queueOf := by
    refine (queueOf_loopGoto s c pc s.queue).trans (congrArg (Config.mk s.queue) ?_)
    rw [same]
    exact Function.update_eq_self (Sum.inr c) s.queueOf.thread
  rw [QueueOk, unmoved]
  exact ok

end Step

/-- A coroutine inside the queue goes on to try, unless it has found the queue empty. -/
theorem LoopPc.Takes.access {q q' : BoundedQueue T} {inner next : BoundedQueue.Local T} {spurious : Bool}
    (takes : (LoopPc.queue inner).Takes) (notReturned : ∀ result, inner ≠ .deqReturn result)
    (here : BoundedQueue.At q inner) (moved : BoundedQueue.act q inner (.run spurious) = some (q', next)) :
    (LoopPc.queue next).Takes ∧ next ≠ .idle ∧ (next = .deqReturn none → q'.commit - q'.head - 1 = 0) := by
  cases BoundedQueue.act_cases moved with
  | enqueue | dequeue => cases moved
  | loadTail | full | room | ticket | retryTail | store | commit | retryCommit | enqReturn => exact takes.elim
  | loadHead | waiting | read | retryHead | take => exact ⟨trivial, nofun, nofun⟩
  | empty oldHead atCommit =>
    refine ⟨trivial, nofun, fun _ => ?_⟩
    have stale : oldHead ≤ q.head := here
    omega
  | deqReturn result => exact absurd rfl (notReturned result)

/-- Only a commit adds to the committed tasks. -/
theorem backlog_access {q q' : BoundedQueue T} {inner next : BoundedQueue.Local T} {spurious : Bool}
    (moved : BoundedQueue.act q inner (.run spurious) = some (q', next)) :
    q'.commit - q'.head - 1 ≤ q.commit - q.head - 1 ∨ next = .enqReturn true := by
  cases BoundedQueue.act_cases moved with
  | commit => exact .inr rfl
  | take =>
    refine .inl ?_
    dsimp only
    omega
  | _ => exact .inl le_rfl

/-- `NotifyTask` changes neither a lock nor a state and takes back no update. -/
theorem notify_routines [DecidableEq κ] (s : State α κ π T) (c : κ) (pc : NotifyPc) (d : κ) :
    let s' := s.setRoutine c (pc.act (s.routines c)).1
    (s'.routines d).lock = (s.routines d).lock ∧ (s'.routines d).state = (s.routines d).state ∧
      ((s.routines d).UpdatePending → (s'.routines d).UpdatePending) := by
  simp only [State.setRoutine]
  by_cases same : d = c
  · subst same
    rw [Function.update_self]
    cases pc with
    | setUpdateFlag => exact ⟨rfl, rfl, fun _ => rfl⟩
    | readDataWait | readIoWait | notify => exact ⟨rfl, rfl, id⟩
  · rw [Function.update_of_ne same]
    exact ⟨rfl, rfl, id⟩

section Attended
variable {s s' : State α κ π T}

/-- A step of the caller `a` takes the tasks from nobody else. -/
theorem attended_of_others [DecidableEq α] {a : α} {pc : CallerPc κ T}
    (others : (∃ b, b ≠ a ∧ s.Notifies b) ∨ ∃ c, (s.routines c).UpdatePending ∨ s.Looks c)
    (callers : s'.callers = Function.update s.callers a pc) (loops : s'.loops = s.loops)
    (states : ∀ c, (s'.routines c).state = (s.routines c).state)
    (pending : ∀ c, (s.routines c).UpdatePending → (s'.routines c).UpdatePending) : s'.Attended := by
  rcases others with ⟨b, different, notifies⟩ | ⟨c, here⟩
  · refine .inl ⟨b, ?_⟩
    rw [State.Notifies, callers, Function.update_of_ne different]
    exact notifies
  · refine .inr ⟨c, here.imp (pending c) fun looks => ?_⟩
    rw [State.Looks, loops, states]
    exact looks

/-- A step of the caller `a` that was not to notify. -/
theorem State.Attended.caller [DecidableEq α] {a : α} {pc : CallerPc κ T} (old : s.Attended) (own : ¬ s.Notifies a)
    (callers : s'.callers = Function.update s.callers a pc) (loops : s'.loops = s.loops)
    (states : ∀ c, (s'.routines c).state = (s.routines c).state)
    (pending : ∀ c, (s.routines c).UpdatePending → (s'.routines c).UpdatePending) : s'.Attended := by
  refine attended_of_others (old.imp_left ?_) callers loops states pending
  rintro ⟨b, notifies⟩
  exact ⟨b, fun same => own (same ▸ notifies), notifies⟩

/-- A step on behalf of the coroutine `c` leaves the tasks to whom they were left, if it goes on to look for
them itself whenever it was about to. -/
theorem State.Attended.routine {c : κ} (old : s.Attended) (callers : s'.callers = s.callers)
    (loops : ∀ d, d ≠ c → s'.loops d = s.loops d) (routines : ∀ d, d ≠ c → s'.routines d = s.routines d)
    (own : (s.routines c).UpdatePending ∨ s.Looks c → (s'.routines c).UpdatePending ∨ s'.Looks c) : s'.Attended := by
  rcases old with ⟨a, notifies⟩ | ⟨d, here⟩
  · refine .inl ⟨a, ?_⟩
    rw [State.Notifies, callers]
    exact notifies
  · refine .inr ⟨d, ?_⟩
    by_cases same : d = c
    · subst same
      exact own here
    · rw [State.Looks, loops d same, routines d same]
      exact here

/-- A caller that has put its task in the queue hands it on to the first coroutine it has still to notify. -/
theorem attended_notifyFrom [DecidableEq α] {a : α} {rest : List κ} (some : rest ≠ []) :
    (s.callerGoto a (notifyFrom rest)).Attended := by
  cases rest with
  | nil => exact absurd rfl some
  | cons c rest =>
    refine .inl ⟨a, ?_⟩
    simp [State.Notifies, State.callerGoto, notifyFrom]

theorem attended_notify [DecidableEq α] [DecidableEq κ] {tasks : List κ} {a : α} {c : κ} {rest : List κ}
    {pc : NotifyPc} (here : s.callers a = .notify c pc rest)
    (inTime : s.LastLook tasks a → (∃ b, b ≠ a ∧ s.Notifies b) ∨ ∃ c, (s.routines c).UpdatePending ∨ s.Looks c)
    (other : pc ≠ .notify) (old : s.Attended) :
    ((s.setRoutine c (pc.act (s.routines c)).1).callerGoto a (.notify c (pc.act (s.routines c)).2 rest)).Attended := by
  have same := notify_routines s c pc
  cases pc with
  | notify => exact absurd rfl other
  | setUpdateFlag =>
    refine .inr ⟨c, .inl ?_⟩
    simp [State.callerGoto, State.setRoutine, NotifyPc.act, CRoutine.setUpdateFlag, CRoutine.UpdatePending]
  | readDataWait =>
    by_cases waits : (s.routines c).state = .dataWait
    · exact .inl ⟨a, by simp [State.Notifies, State.callerGoto, NotifyPc.act, waits]⟩
    by_cases none : rest = []
    · have last : s.LastLook tasks a := by
        rw [State.LastLook, here, none]
        exact waits
      exact attended_of_others (inTime last) rfl rfl (fun d => (same d).2.1) fun d => (same d).2.2
    · exact .inl ⟨a, by simp [State.Notifies, State.callerGoto, NotifyPc.act, waits, none]⟩
  | readIoWait =>
    by_cases none : rest = []
    · refine old.caller (fun notifies => ?_) rfl rfl (fun d => (same d).2.1) fun d => (same d).2.2
      rw [State.Notifies, here] at notifies
      exact notifies none
    · refine .inl ⟨a, ?_⟩
      by_cases waits : (s.routines c).state = .ioWait
      · simp [State.Notifies, State.callerGoto, NotifyPc.act, waits]
      · simp [State.Notifies, State.callerGoto, NotifyPc.act, waits, none]

/-- A processor that accesses the coroutine takes its update only to make it ready. -/
theorem attended_access [DecidableEq κ] [DecidableEq π] {p : π} {c : κ} {pc : Processor.Pc} (now : Nat) (held : Held s)
    (notRunning : pc ≠ .running)
    (here : s.processors p = none ∧ pc = .acquire ∨ s.processors p = some (c, pc)) (old : s.Attended) :
    ((s.setRoutine c (pc.act (s.routines c) now).1).processorGoto p
      (holding c (pc.act (s.routines c) now).2)).Attended := by
  refine old.routine (c := c) rfl (fun _ _ => rfl) (fun d other => ?_) fun own => ?_
  · simp [State.processorGoto, State.setRoutine, other]
  · simp only [State.Looks, State.processorGoto, State.setRoutine, Function.update_self] at own ⊢
    have same : (pc.act (s.routines c) now).1.state = .dataWait ∨ pc = .acquire →
        (pc.act (s.routines c) now).1.state = (s.routines c).state ∧
          (pc.act (s.routines c) now).1.updated = (s.routines c).updated := by
      rintro (waits | rfl)
      · exact Processor.Pc.act_waiting (.inl waits)
      · exact ⟨rfl, rfl⟩
    by_cases unchanged : (pc.act (s.routines c) now).1.state = .dataWait ∨ pc = .acquire
    · obtain ⟨state, updated⟩ := same unchanged
      rw [state, CRoutine.UpdatePending, updated]
      exact own
    · obtain ⟨ready, later⟩ := not_or.mp unchanged
      have start : s.loops c = .queue .idle := by
        by_contra moved
        obtain ⟨q, running⟩ := held.runs c moved
        rcases here with ⟨-, first⟩ | here
        · exact later first
        · cases held.one q p c _ _ running here
          rw [running] at here
          cases here
          exact notRunning rfl
      rw [start]
      exact .inr ready

end Attended

theorem notifyFrom_inner (rest : List κ) : (notifyFrom rest : CallerPc κ T).inner = .idle := by
  cases rest <;> rfl

section Step
variable [DecidableEq α] [DecidableEq κ] [DecidableEq π] {tasks : List κ} {s s' : State α κ π T} {e : Event α κ π T}

theorem Effect.queueOk (effect : Effect tasks s e s') (ok : QueueOk s) : QueueOk s' := by
  cases effect with
  | enqueue element here =>
    exact ok.caller (.enqueue element) (by rw [here]; rfl)
  | returned here =>
    exact ok.caller (.run false) (by rw [here, notifyFrom_inner]; rfl)
  | callerInside here notReturned moved => exact ok.caller _ (by rw [here]; exact moved)
  | notified here => exact ok.callerOutside (by rw [here, notifyFrom_inner]; rfl)
  | @notify a c rest _ pc here _ =>
    have ok : QueueOk (s.setRoutine c (pc.act (s.routines c)).1) := ok
    exact ok.callerOutside (by rw [State.setRoutine, here]; rfl)
  | start _ here => exact ok.loop .dequeue (by rw [here]; rfl)
  | @hangUp p c _ _ here =>
    have ok : QueueOk (s.setRoutine c ((s.routines c).setState .dataWait)) := ok
    exact ok.loop (.run false) (by rw [State.setRoutine, here]; rfl)
  | dequeued task _ here => exact ok.loop (.run false) (by rw [here]; rfl)
  | loopInside _ here _ _ moved => exact ok.loop _ (by rw [here]; exact moved)
  | ran _ here => exact ok.loopOutside (by rw [here]; rfl)
  | @swapContext p c _ _ here =>
    have outside : QueueOk (s.loopGoto c (.queue .idle)) := ok.loopOutside (by rw [here]; rfl)
    exact outside
  | access => exact ok

theorem Effect.held (effect : Effect tasks s e s') (ok : QueueOk s) (held : Held s) : Held s' := by
  cases effect with
  | enqueue | returned | callerInside | notified => exact held.callers rfl rfl fun _ => ⟨rfl, rfl⟩
  | @notify a c rest _ pc here _ =>
    have same := notify_routines s c pc
    exact held.callers rfl rfl fun d => ⟨(same d).1, (same d).2.1⟩
  | @start p c _ running here =>
    refine held.loop running rfl trivial rfl (fun _ => rfl) (fun _ _ => rfl) (.inr ?_)
    exact (held.awake p c running).resolve_left (by rw [here]; nofun)
  | @hangUp p c _ running here =>
    refine held.loop running rfl trivial rfl (fun d => ?_) (fun d other => ?_) (.inl rfl)
    · by_cases same : d = c
      · subst same
        simp [State.loopGoto, State.setRoutine, CRoutine.setState]
      · simp [State.loopGoto, State.setRoutine, same]
    · simp [State.loopGoto, State.setRoutine, other]
  | @dequeued p c _ task running here =>
    refine held.loop running rfl trivial rfl (fun _ => rfl) (fun _ _ => rfl) (.inr ?_)
    exact (held.awake p c running).resolve_left (by rw [here]; nofun)
  | @loopInside p c _ inner next queue _ running here notIdle notReturned moved =>
    have inside : BoundedQueue.At s.queue (s.loops c).inner := ok.thread (.inr c)
    have takes := held.takes c
    rw [here] at inside takes
    refine held.loop running rfl (takes.access notReturned inside moved).1 rfl (fun _ => rfl) (fun _ _ => rfl) (.inr ?_)
    exact (held.awake p c running).resolve_left (by rw [here]; nofun)
  | @ran p c _ running here =>
    refine held.loop running rfl trivial rfl (fun _ => rfl) (fun _ _ => rfl) (.inr ?_)
    exact (held.awake p c running).resolve_left (by rw [here]; nofun)
  | swapContext running _ => exact held.swap running
  | access now pc notRunning here => exact held.access now notRunning here

theorem Effect.attended (effect : Effect tasks s e s') (inv : Inv s) (inTime : InTime tasks s e)
    (waiting : 0 < s'.backlog) : s'.Attended := by
  cases effect with
  | enqueue element here =>
    refine (inv.attended waiting).caller (fun notifies => ?_) rfl rfl (fun _ => rfl) fun _ => id
    rw [State.Notifies, here] at notifies
    exact notifies
  | @returned a result _ here =>
    by_cases none : tasks = []
    · have last : s.LastLook tasks a := by
        rw [State.LastLook, here]
        exact none
      exact attended_of_others (inTime last waiting) rfl rfl (fun _ => rfl) fun _ => id
    · exact attended_notifyFrom none
  | @callerInside a inner next queue _ here notReturned moved =>
    rcases backlog_access moved with fewer | rfl
    · refine (inv.attended (waiting.trans_le fewer)).caller (fun notifies => ?_) rfl rfl (fun _ => rfl) fun _ => id
      rw [State.Notifies, here] at notifies
      cases inner with
      | enqReturn result => exact notReturned result rfl
      | _ => exact notifies
    · exact .inl ⟨a, by simp [State.Notifies, State.callerGoto]⟩
  | @notified a c rest _ here =>
    by_cases none : rest = []
    · refine (inv.attended waiting).caller (fun notifies => ?_) rfl rfl (fun _ => rfl) fun _ => id
      rw [State.Notifies, here] at notifies
      exact notifies none
    · exact attended_notifyFrom none
  | notify pc here other => exact attended_notify here (fun last => inTime last waiting) other (inv.attended waiting)
  | @start p c _ running here =>
    exact .inr ⟨c, .inr (by simp [State.Looks, State.loopGoto])⟩
  | @hangUp p c _ running here =>
    refine (inv.attended waiting).routine (c := c) rfl (fun d other => ?_) (fun d other => ?_) (fun own => .inl ?_)
    · simp [State.loopGoto, State.setRoutine, other]
    · simp [State.loopGoto, State.setRoutine, other]
    · rw [State.Looks, here] at own
      simpa [State.loopGoto, State.setRoutine, CRoutine.setState, CRoutine.UpdatePending] using own
  | @dequeued p c _ task running here =>
    exact .inr ⟨c, .inr (by simp [State.Looks, State.loopGoto])⟩
  | @loopInside p c _ inner next queue _ running here notIdle notReturned moved =>
    have inside : BoundedQueue.At s.queue (s.loops c).inner := inv.queue.thread (.inr c)
    have takes := inv.held.takes c
    rw [here] at inside takes
    obtain ⟨-, going, empty⟩ := takes.access notReturned inside moved
    refine .inr ⟨c, .inr ?_⟩
    simp only [State.Looks, State.loopGoto, Function.update_self]
    split
    · rename_i same
      cases same
      exact absurd rfl going
    · rename_i same
      cases same
    · rename_i same
      cases same
      have none := empty rfl
      simp only [State.backlog, State.loopGoto] at waiting
      omega
    · trivial
  | @ran p c _ running here =>
    have ready := (inv.held.awake p c running).resolve_left (by rw [here]; nofun)
    exact .inr ⟨c, .inr (by simpa [State.Looks, State.loopGoto] using ready)⟩
  | @swapContext p c _ running here =>
    refine (inv.attended waiting).routine (c := c) rfl (fun d other => ?_) (fun d other => rfl) (fun own => ?_)
    · simp [State.loopGoto, State.processorGoto, other]
    · rw [State.Looks, here] at own
      simpa [State.Looks, State.loopGoto, State.processorGoto] using own
  | access now pc notRunning here => exact attended_access now inv.held notRunning here (inv.attended waiting)

variable [Inhabited T]

theorem inv_init (size : Nat) : Inv (machine α κ π T size tasks).init where
  queue := by
    refine ⟨BoundedQueue.inv_init size, ?_, ?_⟩
    · rintro (a | c) <;> trivial
    · rintro (a | c) (b | d) _ k held _ <;> cases held
  held := ⟨fun _ => trivial, nofun, nofun, fun _ moved => absurd rfl moved, nofun⟩
  attended waiting := absurd waiting (Nat.lt_irrefl 0)

/-- No task is left in the queue with every coroutine waiting, in every run in which each `Enqueue` that finds
no coroutine waiting at its last look leaves the queue empty or to somebody else. -/
theorem task_not_stranded {size : Nat} (reach : (machine α κ π T size tasks).ReachWhen (InTime tasks) s) :
    ¬ s.Stranded := by
  refine Inv.not_stranded_task (reach.invariant (P := Inv) (inv_init size) ?_)
  intro s e s' inv inTime step
  have effect := step_effect step
  exact ⟨effect.queueOk inv.queue, effect.held inv.queue inv.held, effect.attended inv inTime⟩

end Step

/-- The one coroutine finds the queue empty and waits; then a task comes. -/
def wokenByTask : List (Event Unit Unit Unit String) :=
  List.replicate 9 (.process () () 0 false) ++ .enqueue () "task" :: List.replicate 9 (.caller () false)

theorem wokenByTask_not_stranded :
    let s := (machine Unit Unit Unit String 2 [()]).stateAt wokenByTask 19
    ¬ s.Stranded ∧ (∀ a, s.callers a = .queue .idle) ∧ s.backlog = 1 ∧ (s.routines ()).state = .dataWait := by
  have reach : (machine Unit Unit Unit String 2 [()]).ReachWhen (InTime [()])
      ((machine Unit Unit Unit String 2 [()]).stateAt wokenByTask 19) :=
    Machine.stateAt_reachWhen wokenByTask (by decide) rfl
  exact ⟨task_not_stranded reach, fun _ => rfl, by decide, by decide⟩

/-- The task comes after the coroutine has found the queue empty and before it sets its state. -/
def taskBeforeHangUp : List (Event Unit Unit Unit String) :=
  List.replicate 6 (.process () () 0 false) ++ .enqueue () "task" :: List.replicate 9 (.caller () false) ++
    List.replicate 3 (.process () () 0 false)

theorem taskBeforeHangUp_stranded :
    let s := (machine Unit Unit Unit String 2 [()]).stateAt taskBeforeHangUp 19
    (machine Unit Unit Unit String 2 [()]).Reach s ∧ s.Stranded := by
  refine ⟨Machine.stateAt_reach (M := machine Unit Unit Unit String 2 [()]) taskBeforeHangUp rfl, fun _ => rfl, ?_, ?_⟩
  · decide
  · exact fun _ => ⟨nofun, rfl, nofun⟩

end CyberRT.TaskManager

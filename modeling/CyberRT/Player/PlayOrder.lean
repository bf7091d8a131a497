import CyberRT.Player.PlayTaskBuffer

namespace CyberRT.Record
open Concur

/-- The tasks are in the order of their play times. -/
def InPlayOrder (tasks : List PlayTask) : Prop :=
  tasks.Pairwise fun x y => x.msgPlayTimeNs ≤ y.msgPlayTimeNs

theorem PlayTaskBuffer.push_last {b : PlayTaskBuffer} {task : PlayTask}
    (last : ∀ earlier ∈ b.tasks, earlier.msgPlayTimeNs ≤ task.msgPlayTimeNs) :
    (b.push (some task)).tasks = b.tasks ++ [task] := by
  have behind : ∀ tasks : List PlayTask, (∀ earlier ∈ tasks, earlier.msgPlayTimeNs ≤ task.msgPlayTimeNs) →
      tasks.orderedInsert (fun x y => x.msgPlayTimeNs < y.msgPlayTimeNs) task = tasks ++ [task] := by
    intro tasks last
    induction tasks with
    | nil => rfl
    | cons first rest ih =>
      have notBefore : ¬ task.msgPlayTimeNs < first.msgPlayTimeNs := Nat.not_lt.mpr (last first (List.mem_cons_self ..))
      rw [List.orderedInsert_cons, if_neg notBefore,
        ih fun earlier member => last earlier (List.mem_cons_of_mem _ member), List.cons_append]
  exact behind b.tasks last

namespace ConsumerPc

/-- The task that the consumer took with `Front` and has not popped yet. -/
def taken : ConsumerPc → Option PlayTask
  | idle | test | front => none
  | firstSleep task | ready task | played task | pauseTest task | pauseStopTest task | pauseOnceTest task
  | popFront task => some task

/-- The task that was played and not popped yet. -/
def justPlayed : ConsumerPc → Option PlayTask
  | idle | test | front | firstSleep _ | ready _ => none
  | played task | pauseTest task | pauseStopTest task | pauseOnceTest task | popFront task => some task

theorem taken_of_justPlayed {pc : ConsumerPc} {task : PlayTask} (here : pc.justPlayed = some task) :
    pc.taken = some task := by
  cases pc <;> simp_all [justPlayed, taken]

end ConsumerPc

namespace Player
variable {p p' : Player}

/-- The producer pushes no task that is to be played before one it pushed earlier. -/
def PushesInOrder (p : Player) : Event → Prop
  | .push (some task) => ∀ earlier ∈ p.pushed, earlier.msgPlayTimeNs ≤ task.msgPlayTimeNs
  | _ => True

instance (p : Player) (e : Event) : Decidable (PushesInOrder p e) :=
  match e with
  | .push (some task) =>
    inferInstanceAs (Decidable (∀ earlier ∈ p.pushed, earlier.msgPlayTimeNs ≤ task.msgPlayTimeNs))
  | .push none | .start _ | .stop | .pause | .playOnce | .continue | .consume _ _ => inferInstanceAs (Decidable True)

/-- The buffer holds what was pushed and not popped, a task that was taken is still its first, and all that was popped
was played. The thread ends only when the consumer is stopped. -/
structure Inv (p : Player) : Prop where
  pushed : p.pushed = p.popped ++ p.buffer.tasks
  order : InPlayOrder p.pushed
  taken : ∀ task, p.pc.taken = some task → p.buffer.front = some task
  played : p.played = p.popped ++ p.pc.justPlayed.toList
  stopped : p.pc = .idle → p.isStopped = true

theorem inv_create : Inv create where
  pushed := rfl
  order := List.Pairwise.nil
  taken := by simp [create, ConsumerPc.taken]
  played := rfl
  stopped := fun _ => rfl

/-- A step that neither pushes nor plays nor pops. -/
theorem Inv.of_same (inv : Inv p) (buffer : p'.buffer = p.buffer) (pushed : p'.pushed = p.pushed)
    (played : p'.played = p.played) (popped : p'.popped = p.popped)
    (taken : ∀ task, p'.pc.taken = some task → p.buffer.front = some task)
    (justPlayed : p'.pc.justPlayed = p.pc.justPlayed) (stopped : p'.pc = .idle → p'.isStopped = true) : Inv p' where
  pushed := by rw [pushed, popped, buffer, inv.pushed]
  order := pushed ▸ inv.order
  taken := buffer ▸ taken
  played := by rw [played, popped, justPlayed, inv.played]
  stopped := stopped

theorem Inv.push (inv : Inv p) {task : PlayTask}
    (last : ∀ earlier ∈ p.pushed, earlier.msgPlayTimeNs ≤ task.msgPlayTimeNs) :
    Inv { p with buffer := p.buffer.push (some task), pushed := p.pushed ++ [task] } := by
  have appended : (p.buffer.push (some task)).tasks = p.buffer.tasks ++ [task] := by
    refine PlayTaskBuffer.push_last fun earlier member => last earlier ?_
    rw [inv.pushed]
    exact List.mem_append_right _ member
  refine ⟨?_, ?_, ?_, inv.played, inv.stopped⟩
  · rw [appended, ← List.append_assoc, ← inv.pushed]
  · exact List.pairwise_append.mpr ⟨inv.order, List.pairwise_singleton _ _, fun earlier member later new => by
      rw [List.mem_singleton.mp new]
      exact last earlier member⟩
  · intro first here
    have before := inv.taken first here
    rw [PlayTaskBuffer.front] at before
    rw [PlayTaskBuffer.front, appended, List.head?_append, before, Option.some_or]

/-- The task that is popped is the one that was just played. -/
theorem Inv.pops (inv : Inv p) {task : PlayTask} (here : p.pc = .popFront task) :
    p.buffer.tasks = task :: p.buffer.popFront.tasks ∧ p.played = p.popped ++ [task] := by
  have first : p.buffer.tasks.head? = some task := inv.taken task (by rw [here, ConsumerPc.taken])
  refine ⟨?_, ?_⟩
  · rw [PlayTaskBuffer.popFront]
    exact List.eq_cons_of_mem_head? first
  · rw [inv.played, here]
    rfl

theorem Inv.consume (inv : Inv p) {sleeping succeeds : Bool} (step : p.consume sleeping succeeds = some p') :
    Inv p' := by
  have taken := inv.taken
  unfold Player.consume at step
  cases here : p.pc with
  | idle => simp [here] at step
  | test =>
    simp only [here, Option.some.injEq] at step
    cases step
    by_cases halt : p.isStopped
    · exact inv.of_same rfl rfl rfl rfl (by simp [halt, ConsumerPc.taken]) (by simp [halt, here, ConsumerPc.justPlayed])
        fun _ => halt
    · exact inv.of_same rfl rfl rfl rfl (by simp [halt, ConsumerPc.taken]) (by simp [halt, here, ConsumerPc.justPlayed])
        (by simp [halt])
  | front =>
    simp only [here] at step
    cases first : p.buffer.front with
    | none =>
      simp only [first, Option.some.injEq] at step
      cases step
      exact inv.of_same rfl rfl rfl rfl (by simp [ConsumerPc.taken]) (by simp [here, ConsumerPc.justPlayed]) (by simp)
    | some task =>
      simp only [first] at step
      split at step
      · cases step
        refine inv.of_same rfl rfl rfl rfl ?_ ?_ ?_
        · split <;> simp [ConsumerPc.taken, first]
        · split <;> simp [here, ConsumerPc.justPlayed]
        · split <;> simp
      · cases step
        exact inv.of_same rfl rfl rfl rfl (by simp [ConsumerPc.taken, first]) (by simp [here, ConsumerPc.justPlayed])
          (by simp)
  | firstSleep task =>
    simp only [here, Option.some.injEq] at step
    cases step
    rw [here] at taken
    by_cases halt : p.isStopped
    · exact inv.of_same rfl rfl rfl rfl (by simp [halt, ConsumerPc.taken]) (by simp [halt, here, ConsumerPc.justPlayed])
        fun _ => halt
    · rw [if_neg halt]
      refine inv.of_same rfl rfl rfl rfl ?_ ?_ ?_
      · split <;> exact taken
      · split <;> simp [here, ConsumerPc.justPlayed]
      · split <;> simp
  | ready task =>
    simp only [here, Option.some.injEq] at step
    cases step
    rw [here] at taken
    refine ⟨inv.pushed, inv.order, taken, ?_, by simp⟩
    have played := inv.played
    rw [here] at played
    simp only [play, played, ConsumerPc.justPlayed, Option.toList_none, List.append_nil, Option.toList_some]
  | played task =>
    simp only [here, Option.some.injEq] at step
    cases step
    rw [here] at taken
    exact inv.of_same rfl rfl rfl rfl taken (by rw [here]; rfl) (by simp)
  | pauseTest task | pauseStopTest task | pauseOnceTest task =>
    simp only [here, Option.some.injEq] at step
    cases step
    rw [here] at taken
    split
    · exact inv.of_same rfl rfl rfl rfl taken (by rw [here]; rfl) (by simp)
    · exact inv.of_same rfl rfl rfl rfl taken (by rw [here]; rfl) (by simp)
  | popFront task =>
    simp only [here, Option.some.injEq] at step
    cases step
    obtain ⟨first, played⟩ := inv.pops here
    have popped : p.buffer.tasks.take 1 = [task] := by
      rw [first]
      rfl
    refine ⟨?_, inv.order, by simp [ConsumerPc.taken], ?_, by simp⟩
    · rw [popped, List.append_assoc, inv.pushed, first]
      rfl
    · rw [popped, played]
      exact (List.append_nil _).symm

theorem Inv.step (inv : Inv p) {e : Event} (allowed : PushesInOrder p e) (moved : p.step e = some p') : Inv p' := by
  cases e with
  | push task =>
    cases Option.some.inj moved
    cases task with
    | none =>
      rw [Option.toList_none, List.append_nil]
      exact inv.of_same rfl rfl rfl rfl inv.taken rfl inv.stopped
    | some task => exact inv.push allowed
  | start beginTimeNs =>
    simp only [Player.step] at moved
    split at moved
    · split at moved
      · rename_i idle
        cases moved
        exact inv.of_same rfl rfl rfl rfl (by simp [ConsumerPc.taken]) (by rw [idle]; rfl) (by simp)
      · cases moved
    · cases moved
      exact inv
  | stop =>
    cases Option.some.inj moved
    exact inv.of_same rfl rfl rfl rfl inv.taken rfl fun _ => rfl
  | pause =>
    cases Option.some.inj moved
    exact inv.of_same rfl rfl rfl rfl inv.taken rfl inv.stopped
  | playOnce =>
    cases Option.some.inj moved
    exact inv.of_same rfl rfl rfl rfl inv.taken rfl inv.stopped
  | «continue» =>
    cases Option.some.inj moved
    exact inv.of_same rfl rfl rfl rfl inv.taken rfl inv.stopped
  | consume sleeping succeeds => exact inv.consume moved

theorem inv_reach (reach : machine.ReachWhen PushesInOrder p) : Inv p :=
  reach.invariant (P := Inv) inv_create fun _ _ _ inv allowed moved => inv.step allowed moved

/-- How far the consumer is with a task. -/
def phase : ConsumerPc → Nat
  | .idle | .test => 0
  | .front => 1
  | .firstSleep _ => 2
  | .ready _ => 3
  | .played _ => 4
  | .pauseStopTest _ => 5
  | .pauseOnceTest _ => 6
  | .pauseTest _ => 7
  | .popFront _ => 8

/-- How many steps the consumer has made on its way, counting nine for each task. -/
def progress (p : Player) : Nat :=
  9 * p.popped.length + phase p.pc

/-- The step of a consumer that does not go on sleeping. -/
def Event.awake : Event → Bool
  | .consume false _ => true
  | _ => false

/-- Nobody stops or pauses the consumer. -/
def Event.Lets : Event → Prop
  | .stop | .pause => False
  | _ => True

/-- The consumer runs, and is not paused. -/
structure Runs (p : Player) : Prop where
  started : p.isStopped = false
  unpaused : p.isPaused = false

/-- A step of the consumer leaves alone what the others do. -/
theorem consume_frame {sleeping succeeds : Bool} (step : p.consume sleeping succeeds = some p') :
    p'.isStopped = p.isStopped ∧ p'.isPaused = p.isPaused ∧ p'.pushed = p.pushed ∧ p.popped <+: p'.popped := by
  have kept : p.popped <+: p.popped := List.prefix_rfl
  cases here : p.pc <;> simp only [Player.consume, here, reduceCtorEq] at step
  case front =>
    split at step
    · cases step
      exact ⟨rfl, rfl, rfl, kept⟩
    · split at step
      · cases step
        exact ⟨rfl, rfl, rfl, kept⟩
      · cases step
        exact ⟨rfl, rfl, rfl, kept⟩
  case popFront =>
    cases step
    exact ⟨rfl, rfl, rfl, List.prefix_append _ _⟩
  all_goals
    cases step
    exact ⟨rfl, rfl, rfl, kept⟩

/-- What was pushed or popped stays so. -/
theorem grows {e : Event} (moved : p.step e = some p') : p.popped <+: p'.popped ∧ p.pushed <+: p'.pushed := by
  cases e with
  | push task =>
    cases Option.some.inj moved
    exact ⟨List.prefix_rfl, List.prefix_append _ _⟩
  | start beginTimeNs =>
    simp only [Player.step] at moved
    split at moved
    · split at moved
      · cases moved
        exact ⟨List.prefix_rfl, List.prefix_rfl⟩
      · cases moved
    · cases moved
      exact ⟨List.prefix_rfl, List.prefix_rfl⟩
  | consume sleeping succeeds =>
    obtain ⟨_, _, pushed, popped⟩ := consume_frame moved
    exact ⟨popped, pushed ▸ List.prefix_rfl⟩
  | stop | pause | playOnce | «continue» =>
    cases Option.some.inj moved
    exact ⟨List.prefix_rfl, List.prefix_rfl⟩

theorem grows_exec {es : List Event} (run : machine.exec p es = some p') :
    p.popped <+: p'.popped ∧ p.pushed <+: p'.pushed := by
  induction es generalizing p with
  | nil =>
    cases Option.some.inj run
    exact ⟨List.prefix_rfl, List.prefix_rfl⟩
  | cons e es ih =>
    obtain ⟨mid, moved, rest⟩ := Option.bind_eq_some_iff.mp run
    have now := grows moved
    have later := ih rest
    exact ⟨now.1.trans later.1, now.2.trans later.2⟩

theorem Runs.step (runs : Runs p) {e : Event} (lets : e.Lets) (moved : p.step e = some p') : Runs p' := by
  have started := runs.started
  have unpaused := runs.unpaused
  cases e with
  | push task =>
    cases Option.some.inj moved
    exact ⟨started, unpaused⟩
  | start beginTimeNs =>
    simp only [Player.step, started, Bool.false_eq_true, if_false, Option.some.injEq] at moved
    cases moved
    exact runs
  | stop => exact absurd lets id
  | pause => exact absurd lets id
  | playOnce =>
    cases Option.some.inj moved
    exact ⟨started, unpaused⟩
  | «continue» =>
    cases Option.some.inj moved
    exact ⟨started, rfl⟩
  | consume sleeping succeeds =>
    obtain ⟨sameStopped, samePaused, _⟩ := consume_frame moved
    exact ⟨sameStopped.trans started, samePaused.trans unpaused⟩

/-- While there is a task in the buffer, a running consumer goes on with every step, unless it sleeps. -/
theorem progress_consume (inv : Inv p) (runs : Runs p) (waiting : p.buffer.tasks ≠ []) {sleeping succeeds : Bool}
    (step : p.consume sleeping succeeds = some p') :
    progress p + (if sleeping then 0 else 1) ≤ progress p' := by
  have started := runs.started
  have unpaused := runs.unpaused
  have one : (if sleeping then 0 else 1) ≤ 1 := by split <;> omega
  unfold Player.consume at step
  cases here : p.pc with
  | idle => simp [here] at step
  | test =>
    simp only [here, started, Bool.false_eq_true, if_false, Option.some.injEq] at step
    cases step
    simp only [progress, phase, here]
    omega
  | front =>
    obtain ⟨first, rest, tasks⟩ := List.exists_cons_of_ne_nil waiting
    have front : p.buffer.front = some first := by
      rw [PlayTaskBuffer.front, tasks, List.head?_cons]
    simp only [here, front] at step
    split at step
    · cases step
      have next : 2 ≤ phase (if first.msgPlayTimeNs > p.beginTimeNs then .firstSleep first else .ready first) := by
        split <;> simp [phase]
      have now : phase .front = 1 := rfl
      simp only [progress, here]
      omega
    · cases step
      simp only [progress, phase, here]
      omega
  | firstSleep task =>
    simp only [here, started, Bool.false_eq_true, if_false, Option.some.injEq] at step
    cases step
    cases sleeping <;> simp [progress, phase, here]
  | ready task =>
    simp only [here, Option.some.injEq] at step
    cases step
    simp only [progress, phase, here, play]
    omega
  | played task =>
    simp only [here, Option.some.injEq] at step
    cases step
    simp only [progress, phase, here]
    omega
  | pauseTest task =>
    simp only [here, unpaused, Bool.false_eq_true, if_false, Option.some.injEq] at step
    cases step
    simp only [progress, phase, here]
    omega
  | pauseStopTest task =>
    simp only [here, started, Bool.false_eq_true, if_false, Option.some.injEq] at step
    cases step
    simp only [progress, phase, here]
    omega
  | pauseOnceTest task =>
    simp only [here, Option.some.injEq] at step
    cases step
    have next : 7 ≤ phase (if p.isPlayonce then .popFront task else .pauseTest task) := by
      split <;> simp [phase]
    have now : phase (.pauseOnceTest task) = 6 := rfl
    simp only [progress, here]
    omega
  | popFront task =>
    simp only [here, Option.some.injEq] at step
    cases step
    obtain ⟨first, _⟩ := inv.pops here
    simp only [progress, phase, here, first, List.take_succ_cons, List.take_zero, List.length_append, List.length_cons,
      List.length_nil]
    omega

theorem progress_step (inv : Inv p) (runs : Runs p) (waiting : p.buffer.tasks ≠ []) {e : Event}
    (moved : p.step e = some p') : progress p + (if e.awake then 1 else 0) ≤ progress p' := by
  cases e with
  | start beginTimeNs =>
    simp only [Player.step, runs.started, Bool.false_eq_true, if_false, Option.some.injEq] at moved
    cases moved
    exact le_rfl
  | consume sleeping succeeds =>
    have more := progress_consume inv runs waiting moved
    cases sleeping <;> exact more
  | push | stop | pause | playOnce | «continue» =>
    cases Option.some.inj moved
    exact le_rfl

/-- A number of tasks that were pushed are popped in time. -/
theorem progress_exec (inv : Inv p) (runs : Runs p) {es : List Event} (meets : machine.Meets PushesInOrder p es)
    (lets : ∀ e ∈ es, e.Lets) (run : machine.exec p es = some p') {n : Nat} (pushed : n ≤ p.pushed.length) :
    n ≤ p'.popped.length ∨ progress p + es.countP Event.awake ≤ progress p' := by
  induction es generalizing p with
  | nil =>
    cases Option.some.inj run
    exact Or.inr le_rfl
  | cons e es ih =>
    obtain ⟨mid, moved, rest⟩ := Option.bind_eq_some_iff.mp run
    have step : p.step e = some mid := moved
    by_cases done : n ≤ p.popped.length
    · exact Or.inl (done.trans (grows_exec run).1.length_le)
    · have waiting : p.buffer.tasks ≠ [] := by
        intro none
        rw [inv.pushed, none, List.append_nil] at pushed
        exact done pushed
      have more := progress_step inv runs waiting step
      have first := lets e (List.mem_cons_self ..)
      simp only [Machine.Meets, moved, Option.elim_some] at meets
      have later := ih (inv.step meets.1 step) (runs.step first step) meets.2
        (fun e' member => lets e' (List.mem_cons_of_mem _ member)) rest
        (pushed.trans (grows step).2.length_le)
      rw [List.countP_cons]
      omega

/-- The consumer plays all that was pushed once it has made nine steps for each task in the buffer. -/
theorem catches_up (inv : Inv p) (runs : Runs p) {es : List Event} (meets : machine.Meets PushesInOrder p es)
    (lets : ∀ e ∈ es, e.Lets) (run : machine.exec p es = some p') (inv' : Inv p')
    (enough : 9 * p.buffer.size ≤ es.countP Event.awake) : p.pushed <+: p'.played := by
  have popped : p.pushed.length ≤ p'.popped.length := by
    rcases progress_exec inv runs meets lets run le_rfl with done | more
    · exact done
    · have steps : phase p'.pc ≤ 8 := by
        cases p'.pc <;> simp [phase]
      have length := congrArg List.length inv.pushed
      rw [List.length_append] at length
      simp only [progress, PlayTaskBuffer.size] at more enough
      omega
  have whole : p'.popped <+: p'.pushed := by
    rw [inv'.pushed]
    exact List.prefix_append _ _
  have played : p'.popped <+: p'.played := by
    rw [inv'.played]
    exact List.prefix_append _ _
  exact (List.prefix_of_prefix_length_le (grows_exec run).2 whole popped).trans played

/-- The consumer plays what was pushed in the order in which it was pushed, each task once, and pops the task that it has
just played; it plays all of it if it is left to run. -/
theorem plays_every_task (reach : machine.ReachWhen PushesInOrder p) :
    p.pushed = p.popped ++ p.buffer.tasks ∧
    (p.played = p.popped ∨ ∃ task, p.buffer.front = some task ∧ p.played = p.popped ++ [task]) ∧
    InPlayOrder p.played ∧
    (∀ task sleeping succeeds p', p.pc = .popFront task → p.consume sleeping succeeds = some p' →
      p.buffer.tasks = task :: p'.buffer.tasks ∧ p.played = p.popped ++ [task] ∧ p'.popped = p.played) ∧
    ∀ es p', Runs p → machine.Meets PushesInOrder p es → (∀ e ∈ es, e.Lets) → machine.exec p es = some p' →
      9 * p.buffer.size ≤ es.countP Event.awake → p.pushed <+: p'.played := by
  have inv := inv_reach reach
  have prefix_pushed : p.played <+: p.pushed := by
    rw [inv.played, inv.pushed]
    refine (List.prefix_append_right_inj _).mpr ?_
    cases just : p.pc.justPlayed with
    | none => exact List.nil_prefix
    | some task =>
      have front := inv.taken task (ConsumerPc.taken_of_justPlayed just)
      rw [List.eq_cons_of_mem_head? front]
      exact ⟨_, rfl⟩
  refine ⟨inv.pushed, ?_, inv.order.sublist prefix_pushed.sublist, ?_, ?_⟩
  · have played := inv.played
    cases just : p.pc.justPlayed with
    | none =>
      rw [just, Option.toList_none, List.append_nil] at played
      exact Or.inl played
    | some task =>
      rw [just] at played
      exact Or.inr ⟨task, inv.taken task (ConsumerPc.taken_of_justPlayed just), played⟩
  · intro task sleeping succeeds p' here step
    obtain ⟨first, played⟩ := inv.pops here
    simp only [Player.consume, here, Option.some.injEq] at step
    cases step
    refine ⟨first, played, ?_⟩
    rw [played, first]
    rfl
  · intro es p' runs meets lets run enough
    exact catches_up inv runs meets lets run (inv_reach (Machine.exec_reachWhen reach meets run)) enough

/-- Two tasks of one time are pushed, the second one while the first one is waited for. -/
def twoTasks : List Event :=
  [.push (some ⟨[1], some "a", 5, 5⟩), .start 0, .consume false true, .consume false true,
    .push (some ⟨[2], some "b", 5, 5⟩)]

theorem plays_every_task_two : ∃ p',
    machine.exec (machine.stateAt twoTasks 5) (List.replicate 18 (.consume false true)) = some p' ∧
    [⟨[1], some "a", 5, 5⟩, ⟨[2], some "b", 5, 5⟩] <+: p'.played ∧ (machine.stateAt twoTasks 5).popped = [] := by
  have reach : machine.ReachWhen PushesInOrder (machine.stateAt twoTasks 5) :=
    Machine.stateAt_reachWhen twoTasks (by decide) (by decide)
  have enabled : (machine.exec (machine.stateAt twoTasks 5) (List.replicate 18 (.consume false true))).isSome := by decide
  obtain ⟨p', run⟩ := Option.isSome_iff_exists.mp enabled
  have plays := (plays_every_task reach).2.2.2.2 (List.replicate 18 (.consume false true)) p' ⟨by decide, by decide⟩
    (by decide) (fun e member => by rw [List.eq_of_mem_replicate member]; trivial) run (by decide)
  exact ⟨p', run, plays, by decide⟩

end Player

end CyberRT.Record

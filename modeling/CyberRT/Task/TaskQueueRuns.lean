import CyberRT.Base.BoundedQueueRefusal
import CyberRT.Task.TaskQueue
import Mathlib.Data.List.Nodup

namespace CyberRT.TaskQueue
open Concur
variable {τ : Type}

/-- Ticket `k` of the queue was given to the task. -/
def Ticketed (q : BoundedQueue (Task τ)) (k : Nat) (task : Task τ) : Prop :=
  0 < k ∧ q.enqueued[k - 1]? = some task

def Committed (q : BoundedQueue (Task τ)) (task : Task τ) : Prop :=
  ∃ k, Ticketed q k task ∧ k < q.commit

/-- What is known of the task of a call at each point of it, as long as the queue refuses nothing. -/
def Stage (q : BoundedQueue (Task τ)) (l : Local τ) : Prop :=
  match l.inner with
  | .enqLoadTail task | .enqLoadHead task _ | .enqCasTail task _ => l.task = some task ∧ task ∉ q.enqueued
  | .enqStore task k => l.task = some task ∧ Ticketed q k task
  | .enqCasCommit k => ∃ task, l.task = some task ∧ Ticketed q k task
  | .enqReturn result => result = true ∧ ∃ task, l.task = some task ∧ Committed q task
  | _ => True

structure Inv (s : State τ) : Prop where
  ids : ∀ t, (s.thread t).id = t
  /-- A task carries its caller and the number of a call that has been made. -/
  fresh : ∀ task ∈ s.shared.queue.enqueued, task.2 < (s.thread task.1).calls
  own : ∀ t task, (s.thread t).task = some task → task.1 = t ∧ task.2 < (s.thread t).calls
  nodup : s.shared.queue.enqueued.Nodup
  stage : ∀ t, Stage s.shared.queue (s.thread t)
  futures : s.shared.stop = false → ∀ t, ∀ task ∈ (s.thread t).futures, Committed s.shared.queue task
  taken : s.shared.taken.map Prod.snd = s.shared.queue.dequeued

/-- The queue has room at the test that is about to be made. -/
def HasRoom (s : State τ) (e : τ × Choice) : Prop :=
  ∀ oldTail ∈ (s.thread e.1).inner.testedTail?,
    s.shared.queue.getIndex (oldTail + 1) ≠ s.shared.queue.getIndex s.shared.queue.head

instance (s : State τ) (e : τ × Choice) : Decidable (HasRoom s e) :=
  inferInstanceAs (Decidable (∀ oldTail ∈ (s.thread e.1).inner.testedTail?, _))

/-- The task was put in the queue once. Either it is there, committed and in its slot, and nobody was handed it,
or one thread was handed it, once. -/
structure Placed (s : State τ) [DecidableEq τ] (task : Task τ) : Prop where
  once : s.shared.queue.enqueued.count task = 1
  kept : ((∃ k, s.shared.queue.head < k ∧ k < s.shared.queue.commit ∧
        s.shared.queue.pool (k % s.shared.queue.poolSize) = task) ∧ ∀ w, (w, task) ∉ s.shared.taken) ∨
    ∃ w, s.shared.taken.filter (fun entry => entry.2 = task) = [(w, task)]

theorem Ticketed.grows {q q' : BoundedQueue (Task τ)} {k : Nat} {task : Task τ} (ticketed : Ticketed q k task)
    (grows : BoundedQueue.Grows q q') : Ticketed q' k task :=
  ⟨ticketed.1, grows.recorded _ _ ticketed.2⟩

theorem Committed.grows {q q' : BoundedQueue (Task τ)} {task : Task τ} (committed : Committed q task)
    (grows : BoundedQueue.Grows q q') : Committed q' task := by
  obtain ⟨k, ticketed, before⟩ := committed
  exact ⟨k, ticketed.grows grows, before.trans_le grows.commit⟩

/-- What a step may add to the tickets: the task of the thread that moves. -/
def Adds (q q' : BoundedQueue (Task τ)) (l : Local τ) : Prop :=
  q'.enqueued = q.enqueued ∨ ∃ task, l.task = some task ∧ task ∉ q.enqueued ∧ q'.enqueued = q.enqueued ++ [task]

/-- The stage of a thread survives the step of another, whose task is not its own. -/
theorem Stage.other {q q' : BoundedQueue (Task τ)} {l m : Local τ} (stage : Stage q m)
    (grows : BoundedQueue.Grows q q') (adds : Adds q q' l) (apart : ∀ task, l.task = some task → m.task ≠ some task) :
    Stage q' m := by
  have absent : ∀ task, m.task = some task → task ∉ q.enqueued → task ∉ q'.enqueued := by
    intro task mine old
    rcases adds with same | ⟨added, theirs, -, same⟩
    · rw [same]
      exact old
    · rw [same, List.mem_append, List.mem_singleton]
      rintro (before | rfl)
      · exact old before
      · exact apart task theirs mine
  unfold Stage at stage ⊢
  split at stage
  · exact ⟨stage.1, absent _ stage.1 stage.2⟩
  · exact ⟨stage.1, absent _ stage.1 stage.2⟩
  · exact ⟨stage.1, absent _ stage.1 stage.2⟩
  · exact ⟨stage.1, stage.2.grows grows⟩
  · obtain ⟨task, mine, ticketed⟩ := stage
    exact ⟨task, mine, ticketed.grows grows⟩
  · obtain ⟨stored, task, mine, committed⟩ := stage
    exact ⟨stored, task, mine, committed.grows grows⟩
  · trivial

/-- One access inside the queue: the next stage, the ticket it may issue, and the task it may hand over. -/
theorem inside_stage {q q' : BoundedQueue (Task τ)} {l : Local τ} {next : BoundedQueue.Local (Task τ)} {spurious : Bool}
    (inv : BoundedQueue.Inv q) (stage : Stage q l) (notReturned : ∀ result, l.inner ≠ .enqReturn result)
    (room : ∀ task oldTail, l.inner = .enqLoadHead task oldTail → q.getIndex (oldTail + 1) ≠ q.getIndex q.head)
    (moved : BoundedQueue.act q l.inner (.run spurious) = some (q', next)) :
    Stage q' { l with inner := next } ∧ Adds q q' l ∧
      ∀ taken : List (τ × Task τ), taken.map Prod.snd = q.dequeued →
        (handed l.id taken next).map Prod.snd = q'.dequeued := by
  obtain ⟨self, calls, inner, task, futures⟩ := l
  have tickets := inv.tickets
  dsimp only at moved notReturned room ⊢
  cases BoundedQueue.act_cases moved with
  | enqueue | dequeue => cases moved
  | loadTail | retryTail | room => exact ⟨stage, .inl rfl, fun _ => id⟩
  | full element oldTail positive same =>
    refine absurd ?_ (room element oldTail rfl)
    rw [BoundedQueue.getIndex_eq_some.mpr ⟨positive, rfl⟩, BoundedQueue.getIndex_eq_some.mpr ⟨positive, rfl⟩, same]
  | ticket element =>
    have position : (q.enqueued ++ [element])[q.tail - 1]? = some element := by
      rw [← tickets, Nat.add_sub_cancel, List.getElem?_concat_length]
    exact ⟨⟨stage.1, by omega, position⟩, .inr ⟨element, stage.1, stage.2, rfl⟩, fun _ => id⟩
  | store element oldTail => exact ⟨⟨element, stage⟩, .inl rfl, fun _ => id⟩
  | commit =>
    obtain ⟨element, mine, ticketed⟩ := stage
    exact ⟨⟨rfl, element, mine, q.commit, ticketed, Nat.lt_succ_self _⟩, .inl rfl, fun _ => id⟩
  | retryCommit => exact ⟨stage, .inl rfl, fun _ => id⟩
  | enqReturn result => exact absurd rfl (notReturned result)
  | loadHead | empty | waiting | read | retryHead | deqReturn => exact ⟨trivial, .inl rfl, fun _ => id⟩
  | take element =>
    refine ⟨trivial, .inl rfl, fun taken same => ?_⟩
    simp only [handed, List.map_append, same, List.map_singleton]

variable [DecidableEq τ]

theorem step_calls {s : State τ} {t : τ} {k : Shared τ} {l : Local τ} (effect : Effect s.shared (s.thread t) k l)
    (u : τ) : (s.thread u).calls ≤ (Function.update s.thread t l u).calls := by
  by_cases same : u = t
  · subst same
    rw [Function.update_self]
    cases effect with
    | refused | enqueue => exact Nat.le_succ _
    | dequeue | stop | returns | inside => exact le_rfl
  · rw [Function.update_of_ne same]

/-- What a thread that moves has to show for itself. -/
theorem Inv.next {s : State τ} (inv : Inv s) {t : τ} {k : Shared τ} {l : Local τ}
    (effect : Effect s.shared (s.thread t) k l) (grows : BoundedQueue.Grows s.shared.queue k.queue)
    (adds : Adds s.shared.queue k.queue (s.thread t))
    (own : ∀ task, l.task = some task → (s.thread t).task = some task ∨ task = (t, (s.thread t).calls) ∧
      l.calls = (s.thread t).calls + 1)
    (stage : Stage k.queue l) (going : k.stop = false → s.shared.stop = false)
    (futures : k.stop = false → ∀ task ∈ l.futures, Committed k.queue task)
    (taken : k.taken.map Prod.snd = k.queue.dequeued) : Inv ⟨k, Function.update s.thread t l⟩ := by
  have later := step_calls effect
  refine ⟨?_, ?_, ?_, ?_, ?_, ?_, taken⟩
  · refine (Function.forall_update_iff _ fun u (l : Local τ) => l.id = u).mpr ?_
    exact ⟨effect.id.trans (inv.ids t), fun u _ => inv.ids u⟩
  · intro task member
    refine Nat.lt_of_lt_of_le ?_ (later task.1)
    rcases adds with same | ⟨added, mine, -, same⟩
    · exact inv.fresh task (same ▸ member)
    · rw [same, List.mem_append, List.mem_singleton] at member
      rcases member with old | rfl
      · exact inv.fresh task old
      · obtain ⟨rfl, before⟩ := inv.own t task mine
        exact before
  · intro u task mine
    dsimp only at mine ⊢
    by_cases same : u = t
    · subst same
      have later := later u
      rw [Function.update_self] at mine later ⊢
      rcases own task mine with old | ⟨rfl, made⟩
      · obtain ⟨caller, before⟩ := inv.own u task old
        exact ⟨caller, before.trans_le later⟩
      · exact ⟨rfl, by omega⟩
    · rw [Function.update_of_ne same] at mine ⊢
      exact inv.own u task mine
  · rcases adds with same | ⟨added, -, absent, same⟩
    · rw [same]
      exact inv.nodup
    · rw [same, List.nodup_append_comm, List.singleton_append, List.nodup_cons]
      exact ⟨absent, inv.nodup⟩
  · refine (Function.forall_update_iff _ fun _ (l : Local τ) => Stage k.queue l).mpr ⟨stage, fun u different => ?_⟩
    refine (inv.stage u).other grows adds fun task mine theirs => different ?_
    rw [← (inv.own t task mine).1, ← (inv.own u task theirs).1]
  · intro flag u
    dsimp only at flag ⊢
    by_cases same : u = t
    · subst same
      rw [Function.update_self]
      exact futures flag
    · rw [Function.update_of_ne same]
      exact fun task member => (inv.futures (going flag) u task member).grows grows

theorem step_inv [Inhabited τ] {owner : Owner} {size : Nat} {s s' : State τ} {e : τ × Choice}
    (reach : (machine τ owner size).Reach s) (inv : Inv s) (room : HasRoom s e)
    (step : (machine τ owner size).step s e = some s') : Inv s' := by
  obtain ⟨t, c⟩ := e
  obtain ⟨k, l, moved, rfl⟩ := Config.move_eq_some.mp step
  have holds := BoundedQueue.holds (queueOf_reach reach)
  have effect := act_effect moved
  have still : BoundedQueue.Grows s.shared.queue s.shared.queue := ⟨rfl, le_rfl, le_rfl, le_rfl, fun _ _ => id⟩
  have stage := inv.stage t
  have futures := fun flag => inv.futures flag t
  have idles : (s.thread t).inner = .idle → ∀ l : Local τ, l.inner = .idle → Stage s.shared.queue l := by
    intro _ l idle
    unfold Stage
    rw [idle]
    trivial
  cases effect with
  | refused given stopped idle =>
    refine inv.next (.refused given stopped idle) still (.inl rfl) (fun _ => .inl) (idles idle _ idle) id ?_ inv.taken
    intro flag
    rw [stopped] at flag
    cases flag
  | enqueue going idle =>
    refine inv.next (.enqueue going idle) still (.inl rfl) ?_ ?_ id futures inv.taken
    · intro task mine
      cases mine
      exact .inr ⟨by rw [inv.ids t], rfl⟩
    · refine ⟨rfl, fun member => ?_⟩
      have before := inv.fresh _ member
      rw [inv.ids t] at before
      exact absurd before (lt_irrefl _)
  | dequeue idle => exact inv.next (.dequeue idle) still (.inl rfl) (fun _ => .inl) trivial id futures inv.taken
  | stop idle => exact inv.next (.stop idle) still (.inl rfl) (fun _ => .inl) stage nofun nofun inv.taken
  | returns result returned =>
    refine inv.next (.returns result returned) still (.inl rfl) nofun trivial id ?_ inv.taken
    intro flag task member
    rw [Stage, returned] at stage
    obtain ⟨-, mine, same, committed⟩ := stage
    rw [same, Option.toList_some, List.singleton_append, List.mem_cons] at member
    rcases member with rfl | old
    · exact committed
    · exact futures flag task old
  | inside notReturned inside =>
    have test : ∀ task oldTail, (s.thread t).inner = .enqLoadHead task oldTail →
        s.shared.queue.getIndex (oldTail + 1) ≠ s.shared.queue.getIndex s.shared.queue.head := by
      intro task oldTail atTest
      exact room oldTail (by rw [atTest]; rfl)
    obtain ⟨next, adds, hands⟩ := inside_stage holds.shared stage notReturned test inside
    have grows := BoundedQueue.act_grows inside
    refine inv.next (.inside notReturned inside) grows adds (fun _ => .inl) next id ?_ (hands _ inv.taken)
    exact fun flag task member => (futures flag task member).grows grows

theorem inv_init [Inhabited τ] (owner : Owner) (size : Nat) : Inv (machine τ owner size).init where
  ids := fun _ => rfl
  fresh := nofun
  own := nofun
  nodup := List.nodup_nil
  stage := fun _ => trivial
  futures := nofun
  taken := rfl

/-- Where the second components differ, one entry has a given one. -/
theorem filter_eq_singleton {entries : List (τ × Task τ)} (nodup : (entries.map Prod.snd).Nodup) {w : τ} {task : Task τ}
    (member : (w, task) ∈ entries) : entries.filter (fun entry => entry.2 = task) = [(w, task)] := by
  induction entries with
  | nil => cases member
  | cons entry rest ih =>
    obtain ⟨absent, tail⟩ := List.nodup_cons.mp nodup
    rcases List.mem_cons.mp member with rfl | later
    · have none : rest.filter (fun entry => entry.2 = task) = [] := by
        refine List.filter_eq_nil_iff.mpr fun other inside same => absent ?_
        exact List.mem_map.mpr ⟨other, inside, of_decide_eq_true same⟩
      simp only [List.filter_cons, decide_true, if_true, none]
    · have different : entry.2 ≠ task := fun same => absent (same ▸ List.mem_map.mpr ⟨_, later, rfl⟩)
      rw [List.filter_cons_of_neg (by simpa using different)]
      exact ih tail later

theorem Inv.placed {s : State τ} (inv : Inv s) (queue : BoundedQueue.Inv s.shared.queue) {task : Task τ}
    (committed : Committed s.shared.queue task) : Placed s task := by
  obtain ⟨k, ⟨positive, recorded⟩, before⟩ := committed
  obtain ⟨bound, atTicket⟩ := List.getElem?_eq_some_iff.mp recorded
  have dequeued : s.shared.taken.map Prod.snd = s.shared.queue.enqueued.take s.shared.queue.head :=
    inv.taken.trans queue.taken
  refine ⟨List.count_eq_one_of_mem inv.nodup (List.mem_of_getElem? recorded), ?_⟩
  rcases Nat.lt_or_ge s.shared.queue.head k with waiting | gone
  · refine .inl ⟨⟨k, waiting, before, ?_⟩, fun w member => ?_⟩
    · exact Option.some.inj ((queue.waiting k waiting before).symm.trans recorded)
    · have first : task ∈ s.shared.queue.enqueued.take s.shared.queue.head :=
        dequeued ▸ List.mem_map.mpr ⟨_, member, rfl⟩
      obtain ⟨j, early, atEarly⟩ := List.mem_take_iff_getElem.mp first
      have same := (inv.nodup.getElem_inj_iff).mp (atEarly.trans atTicket.symm)
      omega
  · have first : task ∈ s.shared.taken.map Prod.snd := by
      rw [dequeued]
      exact List.mem_take_iff_getElem.mpr ⟨k - 1, by omega, atTicket⟩
    obtain ⟨⟨w, handed⟩, member, same⟩ := List.mem_map.mp first
    cases same
    have nodup : (s.shared.taken.map Prod.snd).Nodup := dequeued ▸ inv.nodup.sublist (List.take_sublist _ _)
    exact .inr ⟨w, filter_eq_singleton nodup member⟩

/-- Accepted work is not dropped in a run in which the queue has room at every test: while the manager or pool is
not stopped, the task of every valid future was put in the queue once, and is there or was handed to one worker. -/
theorem accepted_placed [Inhabited τ] {owner : Owner} {size : Nat} {s : State τ}
    (reach : (machine τ owner size).ReachWhen HasRoom s) (going : s.shared.stop = false) {t : τ} {task : Task τ}
    (accepted : task ∈ (s.thread t).futures) : Placed s task := by
  have inv : Inv s := reach.invariant_of_reach (inv_init owner size) fun _ _ _ => step_inv
  have queue := (BoundedQueue.holds (queueOf_reach reach.reach)).shared
  exact inv.placed queue (inv.futures going t task accepted)

/-- Two tasks are put in a pool of two, and the worker takes the first. -/
def twoTasks : List (Bool × Choice) :=
  (true, .enqueue) :: List.replicate 6 (true, .run false) ++ (true, .enqueue) :: List.replicate 6 (true, .run false) ++
    (false, .dequeue) :: List.replicate 5 (false, .run false)

theorem twoTasks_placed :
    let s := (machine Bool .threadPool 2).stateAt twoTasks 20
    s.shared.stop = false ∧ (s.thread true).futures = [(true, 1), (true, 0)] ∧ s.shared.taken = [(false, (true, 0))] ∧
      Placed s (true, 0) ∧ Placed s (true, 1) := by
  have reach : (machine Bool .threadPool 2).ReachWhen HasRoom ((machine Bool .threadPool 2).stateAt twoTasks 20) :=
    Machine.stateAt_reachWhen twoTasks (by decide) rfl
  exact ⟨rfl, rfl, rfl, accepted_placed reach rfl (t := true) (by decide),
    accepted_placed reach rfl (t := true) (by decide)⟩

/-- The second task finds the pool of one full. -/
def oneTooMany : List (Bool × Choice) :=
  (true, .enqueue) :: List.replicate 6 (true, .run false) ++ (true, .enqueue) :: List.replicate 3 (true, .run false)

theorem oneTooMany_dropped :
    let s := (machine Bool .threadPool 1).stateAt oneTooMany 11
    (machine Bool .threadPool 1).Reach s ∧ s.shared.stop = false ∧ (true, 1) ∈ (s.thread true).futures ∧
      ¬ Placed s (true, 1) := by
  refine ⟨Machine.stateAt_reach (M := machine Bool .threadPool 1) oneTooMany rfl, rfl, by decide, fun placed => ?_⟩
  exact absurd placed.once (by decide)

end CyberRT.TaskQueue

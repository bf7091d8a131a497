import CyberRT.Timer.Timer

namespace CyberRT.Timer
open Concur
universe u

namespace CallPc

/-- A call of `Stop` is in progress. -/
def stopping : CallPc → Bool
  | .testTask | .copyTask | .lock _ | .reset _ | .unlock _ | .release _ => true
  | .idle | .initTimerTask _ | .addTask | .crashed => false

/-- A call of `Start` is in progress, or one of `Stop` that has not reset the task. -/
def critical : CallPc → Bool
  | .initTimerTask _ | .addTask | .testTask | .copyTask | .lock _ | .reset _ => true
  | .idle | .unlock _ | .release _ | .crashed => false

/-- The task whose mutex the call has locked. -/
def locks : CallPc → Option Nat
  | .reset k | .unlock k => some k
  | _ => none

end CallPc

namespace ClosurePc

/-- The closure has yet to lock the mutex of the task. -/
def waiting : ClosurePc → Option Nat
  | .posted k | .entered k | .locked k => some k
  | _ => none

/-- The closure has yet to call the user's callback. -/
def ahead : ClosurePc → Option Nat
  | .posted k | .entered k | .locked k | .callback k => some k
  | _ => none

def locks : ClosurePc → Option Nat
  | .callback k | .addTask k | .unlock k => some k
  | _ => none

/-- A closure that is ahead waits for the mutex or has it. -/
theorem waiting_or_locks {pc : ClosurePc} {k : Nat} (ahead : pc.ahead = some k) :
    pc.waiting = some k ∨ pc.locks = some k := by
  cases pc with
  | posted | entered | locked => exact .inl ahead
  | callback => exact .inr ahead
  | addTask | unlock | release | done => cases ahead

end ClosurePc

variable {τ : Type u}

/-- No `Start` is called during a `Stop`; no `Stop` is called during a `Start` or before another one has reset the
task; when `Stop` resets the task, no closure that was posted for it is still to lock its mutex, and `Tick` is not about
to post one; and `Tick` locks the weak pointer only of a task that the timer owns. -/
def Orderly (s : Timer τ) : Event τ → Prop
  | .start _ _ => ∀ u, (s.calls u).stopping = false
  | .stop _ => ∀ u, (s.calls u).critical = false
  | .next t => ∀ k, s.calls t = .reset k → (∀ i, (s.closures i).waiting ≠ some k) ∧ s.tick ≠ .post k
  | .tick k => ¬ s.Destroyed k → s.task = some k
  | .tickNext | .run _ | .shutdown => True

/-- Where a call stands, whether the timer is started and whether it has a task agree. -/
def At (started : Bool) (task : Option Nat) (stopped : Bool) : CallPc → Prop
  | .idle | .crashed => True
  | .initTimerTask _ => started = true ∧ task = none ∧ stopped = false
  | .addTask => started = true ∧ task ≠ none
  | .testTask => started = false
  | .copyTask => started = false ∧ task ≠ none
  | .lock k | .reset k => started = false ∧ task = some k
  | .unlock _ | .release _ => started = false ∧ task = none

structure Calls (started : Bool) (task : Option Nat) (calls : τ → CallPc) (stopped : Bool) : Prop where
  here : ∀ t, At started task stopped (calls t)
  one : ∀ t u, (calls t).critical = true → (calls u).critical = true → t = u
  idle : started = false → (∀ t, (calls t).critical = false) → task = none
  stopped : stopped = true → task = none

/-- The task whose mutex somebody has locked. -/
def locks (s : Timer τ) : Owner τ → Option Nat
  | .stop t => (s.calls t).locks
  | .closure i => (s.closures i).locks
  | .timer | .tick => none

/-- Whoever has locked the mutex of a task is found there. -/
def Held (locks : Owner τ → Option Nat) (mutex : Nat → Option (Owner τ)) : Prop :=
  ∀ o k, locks o = some k → mutex k = some o

structure Tasks (s : Timer τ) : Prop where
  owned : ∀ k, s.task = some k → .timer ∈ s.owners k
  ahead : ∀ i k, (s.closures i).ahead = some k → s.task = some k
  post : ∀ k, s.tick = .post k → s.task = some k
  held : Held s.locks s.mutex

structure Inv (s : Timer τ) : Prop where
  calls : Calls s.started s.task s.calls s.stopped
  tasks : Tasks s
  safe : s.usedDestroyed = false ∧ s.calledStopped = false

variable [DecidableEq τ] {s : Timer τ} {t : τ}

section Calls
variable {started started' stopped stopped' : Bool} {task task' : Option Nat} {calls : τ → CallPc}

/-- One call moves on; the others stand where they may stand still. -/
theorem Calls.goto (inv : Calls started task calls stopped) {pc : CallPc} (here : At started' task' stopped' pc)
    (others : ∀ u, u ≠ t → At started' task' stopped' (calls u))
    (critical : pc.critical = true → (calls t).critical = true ∨ ∀ u, (calls u).critical = false)
    (idle : started' = false → (∀ u, (Function.update calls t pc u).critical = false) → task' = none)
    (returned : stopped' = true → task' = none) :
    Calls started' task' (Function.update calls t pc) stopped' := by
  refine ⟨fun u => ?_, fun u v first second => ?_, idle, returned⟩
  · by_cases same : u = t
    · subst same
      rw [Function.update_self]
      exact here
    · rw [Function.update_of_ne same]
      exact others u same
  · have alone : ∀ w, w ≠ t → pc.critical = true → (calls w).critical = true → w = t := by
      intro w _ mine theirs
      rcases critical mine with before | nobody
      · exact inv.one w t theirs before
      · cases (nobody w).symm.trans theirs
    by_cases same : u = t
    · subst same
      by_cases again : v = u
      · exact again.symm
      · rw [Function.update_self] at first
        rw [Function.update_of_ne again] at second
        exact (alone v again first second).symm
    · rw [Function.update_of_ne same] at first
      by_cases again : v = t
      · subst again
        rw [Function.update_self] at second
        exact alone u same second first
      · rw [Function.update_of_ne again] at second
        exact inv.one u v first second

/-- One call moves on, and the timer stays as it is. -/
theorem Calls.moves (inv : Calls started task calls stopped) {pc : CallPc} (here : At started task stopped pc)
    (critical : pc.critical = true → (calls t).critical = true ∨ ∀ u, (calls u).critical = false)
    (idle : pc.critical = false → started = false → task = none) :
    Calls started task (Function.update calls t pc) stopped := by
  refine inv.goto here (fun u _ => inv.here u) critical (fun off nobody => ?_) inv.stopped
  have mine := nobody t
  rw [Function.update_self] at mine
  exact idle mine off

omit [DecidableEq τ] in
/-- In a call that is critical nobody else is. -/
theorem Calls.others (inv : Calls started task calls stopped) (mine : (calls t).critical = true) {u : τ}
    (other : u ≠ t) : (calls u).critical = false := by
  rcases theirs : (calls u).critical with _ | _
  · rfl
  · exact absurd (inv.one u t theirs mine) other

omit [DecidableEq τ] in
/-- While a call of `Start` is in progress all others are over. -/
theorem Calls.over (inv : Calls started task calls stopped) (on : started = true)
    {u : τ} (theirs : (calls u).critical = false) : calls u = .idle ∨ calls u = .crashed := by
  have here := inv.here u
  cases pc : calls u with
  | idle => exact .inl rfl
  | crashed => exact .inr rfl
  | unlock k | release k =>
    rw [pc] at here
    cases here.1.symm.trans on
  | initTimerTask | addTask | testTask | copyTask | lock | reset =>
    rw [pc] at theirs
    cases theirs

theorem at_over {pc : CallPc} (ended : pc = .idle ∨ pc = .crashed) : At started task stopped pc := by
  rcases ended with rfl | rfl <;> trivial

/-- `started_.exchange(true)` -/
theorem Calls.start (inv : Calls started task calls stopped) (apart : ∀ u, (calls u).stopping = false) (valid : Bool) :
    Calls true task (Function.update calls t (if started then .idle else .initTimerTask valid)) false := by
  cases started with
  | true =>
    refine inv.goto trivial (fun u _ => ?_) (fun critical => by cases critical) (fun off => by cases off)
      fun off => by cases off
    have here := inv.here u
    have free := apart u
    cases pc : calls u with
    | idle | crashed => trivial
    | initTimerTask valid =>
      rw [pc] at here
      exact ⟨rfl, here.2.1, rfl⟩
    | addTask =>
      rw [pc] at here
      exact here
    | testTask | copyTask | lock | reset | unlock | release =>
      rw [pc] at free
      cases free
  | false =>
    have ended : ∀ u, calls u = .idle ∨ calls u = .crashed := by
      intro u
      have here := inv.here u
      have free := apart u
      cases pc : calls u with
      | idle => exact .inl rfl
      | crashed => exact .inr rfl
      | initTimerTask | addTask =>
        rw [pc] at here
        cases here.1
      | testTask | copyTask | lock | reset | unlock | release =>
        rw [pc] at free
        cases free
    have nobody : ∀ u, (calls u).critical = false := by
      intro u
      rcases ended u with idle | crashed
      · rw [idle]
        rfl
      · rw [crashed]
        rfl
    exact inv.goto ⟨rfl, inv.idle rfl nobody, rfl⟩ (fun u _ => at_over (ended u)) (fun _ => .inr nobody)
      (fun off => by cases off) fun off => by cases off

/-- `started_.exchange(false)` of a timer that is started. -/
theorem Calls.stop (inv : Calls started task calls stopped) (on : started = true)
    (apart : ∀ u, (calls u).critical = false) : Calls false task (Function.update calls t .testTask) stopped := by
  refine inv.goto rfl (fun u _ => at_over (inv.over on (apart u))) (fun _ => .inr apart) (fun _ nobody => ?_)
    inv.stopped
  have mine := nobody t
  rw [Function.update_self] at mine
  cases mine

omit [DecidableEq τ] in
/-- A `Stop` has come to its end. -/
theorem Calls.halts (inv : Calls started task calls stopped) (off : started = false) (gone : task = none) :
    Calls started task calls true := by
  refine ⟨fun u => ?_, inv.one, inv.idle, fun _ => gone⟩
  have here := inv.here u
  cases pc : calls u with
  | idle | crashed => trivial
  | initTimerTask =>
    rw [pc] at here
    cases off.symm.trans here.1
  | addTask | testTask | copyTask | lock | reset | unlock | release =>
    rw [pc] at here
    exact here

theorem Calls.returns (inv : Calls started task calls stopped) (off : started = false) (gone : task = none) :
    Calls started task (Function.update calls t .idle) true :=
  (inv.halts off gone).moves trivial (fun critical => by cases critical) fun _ _ => gone

/-- `InitTimerTask` makes a task. -/
theorem Calls.newTask (inv : Calls started task calls stopped) {valid : Bool} (here : calls t = .initTimerTask valid)
    (k : Nat) : Calls started (some k) (Function.update calls t .addTask) stopped := by
  have mine := inv.here t
  rw [here] at mine
  obtain ⟨on, -, going⟩ := mine
  have critical : (calls t).critical = true := by
    rw [here]
    rfl
  refine inv.goto ⟨on, Option.some_ne_none k⟩ (fun u other => at_over (inv.over on (inv.others critical other)))
    (fun _ => .inl critical) (fun off => ?_) fun ended => ?_
  · cases on.symm.trans off
  · cases going.symm.trans ended

/-- `Stop` resets the task. -/
theorem Calls.reset (inv : Calls started task calls stopped) {k : Nat} (here : calls t = .reset k) :
    Calls started none (Function.update calls t (.unlock k)) stopped := by
  have mine := inv.here t
  rw [here] at mine
  have critical : (calls t).critical = true := by
    rw [here]
    rfl
  refine inv.goto ⟨mine.1, rfl⟩ (fun u other => ?_) (fun critical => by cases critical) (fun _ _ => rfl) fun _ => rfl
  have free := inv.others critical other
  have there := inv.here u
  cases pc : calls u with
  | idle | crashed => trivial
  | unlock | release => exact ⟨mine.1, rfl⟩
  | initTimerTask | addTask | testTask | copyTask | lock | reset =>
    rw [pc] at free
    cases free

end Calls

section Held
variable {locks locks' : Owner τ → Option Nat} {mutex : Nat → Option (Owner τ)} {o : Owner τ} {k : Nat}

theorem Held.same (held : Held locks mutex) (mine : locks' o = none ∨ locks' o = locks o)
    (others : ∀ o', o' ≠ o → locks' o' = locks o') : Held locks' mutex := by
  intro o' k' has
  by_cases same : o' = o
  · subst same
    rcases mine with nothing | before
    · cases nothing.symm.trans has
    · exact held o' k' (before.symm.trans has)
  · exact held o' k' ((others o' same).symm.trans has)

theorem Held.lock (held : Held locks mutex) (free : mutex k = none) (mine : locks' o = some k)
    (others : ∀ o', o' ≠ o → locks' o' = locks o') : Held locks' (Function.update mutex k (some o)) := by
  intro o' k' has
  by_cases same : o' = o
  · subst same
    obtain rfl := Option.some.inj (mine.symm.trans has)
    exact Function.update_self ..
  · have before := held o' k' ((others o' same).symm.trans has)
    have other : k' ≠ k := by
      rintro rfl
      cases free.symm.trans before
    rw [Function.update_of_ne other]
    exact before

theorem Held.unlock (held : Held locks mutex) (mine : locks o = some k) (gone : locks' o = none)
    (others : ∀ o', o' ≠ o → locks' o' = locks o') : Held locks' (Function.update mutex k none) := by
  intro o' k' has
  by_cases same : o' = o
  · subst same
    cases gone.symm.trans has
  · have before := held o' k' ((others o' same).symm.trans has)
    have other : k' ≠ k := by
      rintro rfl
      exact same (Option.some.inj (before.symm.trans (held o k' mine)))
    rw [Function.update_of_ne other]
    exact before

end Held

@[simp] theorem locks_goto (s : Timer τ) (t : τ) (pc : CallPc) : (s.goto t pc).locks (.stop t) = pc.locks := by
  simp only [locks, goto, Function.update_self]

theorem locks_goto_of_ne (s : Timer τ) {t : τ} {pc : CallPc} {o : Owner τ} (other : o ≠ .stop t) :
    (s.goto t pc).locks o = s.locks o := by
  cases o with
  | stop u =>
    have different : u ≠ t := fun same => other (same ▸ rfl)
    simp only [locks, goto, Function.update_of_ne different]
  | timer | tick | closure => rfl

omit [DecidableEq τ] in
@[simp] theorem locks_closureGoto (s : Timer τ) (i : Nat) (pc : ClosurePc) :
    (s.closureGoto i pc).locks (.closure i) = pc.locks := by
  simp only [locks, closureGoto, Function.update_self]

omit [DecidableEq τ] in
theorem locks_closureGoto_of_ne (s : Timer τ) {i : Nat} {pc : ClosurePc} {o : Owner τ} (other : o ≠ .closure i) :
    (s.closureGoto i pc).locks o = s.locks o := by
  cases o with
  | closure j =>
    have different : j ≠ i := fun same => other (same ▸ rfl)
    simp only [locks, closureGoto, Function.update_of_ne different]
  | timer | tick | stop => rfl

omit [DecidableEq τ] in
/-- An owner that comes keeps all others. -/
theorem mem_acquire {o o' : Owner τ} {k j : Nat} (member : o' ∈ s.owners j) : o' ∈ (s.acquire k o).owners j := by
  by_cases same : j = k
  · subst same
    simp only [acquire, Function.update_self]
    exact List.mem_cons_of_mem _ member
  · simpa only [acquire, Function.update_of_ne same] using member

/-- An owner that goes keeps all others. -/
theorem mem_drop {o o' : Owner τ} {k j : Nat} (other : o' ≠ o) (member : o' ∈ s.owners j) :
    o' ∈ (s.drop k o).owners j := by
  by_cases same : j = k
  · subst same
    simp only [drop, Function.update_self]
    exact (List.mem_erase_of_ne other).mpr member
  · simpa only [drop, Function.update_of_ne same] using member

omit [DecidableEq τ] in
/-- The task of the timer is not destroyed. -/
theorem Tasks.alive (inv : Tasks s) {k : Nat} (mine : s.task = some k) : ¬ s.Destroyed k := by
  intro destroyed
  have owned := inv.owned k mine
  rw [show s.owners k = [] from destroyed] at owned
  cases owned

omit [DecidableEq τ] in
/-- A closure moves on with a task that the timer owns if it has yet to call the user's callback. -/
theorem Tasks.closure {s' : Timer τ} {i : Nat} {pc : ClosurePc} (inv : Tasks s) (task : s'.task = s.task)
    (tick : s'.tick = s.tick) (closures : s'.closures = Function.update s.closures i pc)
    (owners : ∀ k, .timer ∈ s.owners k → .timer ∈ s'.owners k) (ahead : ∀ k, pc.ahead = some k → s.task = some k)
    (held : Held s'.locks s'.mutex) : Tasks s' where
  owned k mine := owners k (inv.owned k (task.symm.trans mine))
  ahead j k there := by
    rw [task]
    rw [closures] at there
    by_cases same : j = i
    · subst same
      rw [Function.update_self] at there
      exact ahead k there
    · rw [Function.update_of_ne same] at there
      exact inv.ahead j k there
  post k posts := task.trans (inv.post k (tick.symm.trans posts))
  held := held

omit [DecidableEq τ] in
/-- A call moves on with the task of the timer as it is. -/
theorem Tasks.call {s' : Timer τ} (inv : Tasks s) (task : s'.task = s.task) (tick : s'.tick = s.tick)
    (closures : s'.closures = s.closures) (owners : ∀ k, .timer ∈ s.owners k → .timer ∈ s'.owners k)
    (held : Held s'.locks s'.mutex) : Tasks s' where
  owned k mine := owners k (inv.owned k (task.symm.trans mine))
  ahead i k there := by
    rw [closures] at there
    exact task.trans (inv.ahead i k there)
  post k posts := task.trans (inv.post k (tick.symm.trans posts))
  held := held

theorem Tasks.goto (inv : Tasks s) {pc : CallPc} (same : pc.locks = none ∨ pc.locks = (s.calls t).locks) :
    Held (s.goto t pc).locks s.mutex :=
  inv.held.same (o := .stop t) (by rwa [locks_goto]) fun _ other => locks_goto_of_ne s other

theorem Tasks.closureGoto (inv : Tasks s) {i : Nat} {pc : ClosurePc}
    (same : pc.locks = none ∨ pc.locks = (s.closures i).locks) : Held (s.closureGoto i pc).locks s.mutex :=
  inv.held.same (o := .closure i) (by rwa [locks_closureGoto]) fun _ other => locks_closureGoto_of_ne s other

theorem inv_start (inv : Inv s) (apart : ∀ u, (s.calls u).stopping = false) (valid : Bool) : Inv (s.start t valid) where
  calls := inv.calls.start apart valid
  tasks := by
    refine inv.tasks.call rfl rfl rfl (fun _ => id) (inv.tasks.goto (.inl ?_))
    split <;> rfl
  safe := inv.safe

theorem inv_stop (inv : Inv s) (apart : ∀ u, (s.calls u).critical = false) : Inv (s.stop t) := by
  unfold stop
  split
  · rename_i on
    exact ⟨inv.calls.stop on apart, inv.tasks.call rfl rfl rfl (fun _ => id) (inv.tasks.goto (.inl rfl)), inv.safe⟩
  · rename_i on
    have off : s.started = false := eq_false_of_ne_true on
    exact ⟨inv.calls.halts off (inv.calls.idle off apart), inv.tasks.call rfl rfl rfl (fun _ => id) inv.tasks.held,
      inv.safe⟩

theorem inv_newTask {valid : Bool} (inv : Inv s) (here : s.calls t = .initTimerTask valid) :
    Inv (s.newTask.goto t .addTask) := by
  have mine := inv.calls.here t
  rw [here] at mine
  obtain ⟨-, none, -⟩ := mine
  have reset : s.resetTask = s := by rw [resetTask, none]
  have held : Held (s.goto t .addTask).locks s.mutex := inv.tasks.goto (.inl rfl)
  rw [newTask, reset]
  refine ⟨inv.calls.newTask here s.created, ⟨fun k owns => ?_, fun i k ahead => ?_, fun k posts => ?_, held⟩, inv.safe⟩
  · cases owns
    simp only [goto, acquire, Function.update_self]
    exact List.mem_cons_self
  · cases none.symm.trans (inv.tasks.ahead i k ahead)
  · cases none.symm.trans (inv.tasks.post k posts)

/-- `Stop` has the mutex, so no closure is about to call the user's callback. -/
theorem inv_reset {k : Nat} (inv : Inv s) (here : s.calls t = .reset k)
    (ended : (∀ i, (s.closures i).waiting ≠ some k) ∧ s.tick ≠ .post k) : Inv (s.resetTask.goto t (.unlock k)) := by
  have mine := inv.calls.here t
  rw [here] at mine
  have task : s.task = some k := mine.2
  have locked : s.locks (.stop t) = some k := by
    show (s.calls t).locks = _
    rw [here]
    rfl
  have reset : s.resetTask = { s.drop k .timer with task := none } := by rw [resetTask, task]
  have held : Held (s.goto t (.unlock k)).locks s.mutex := by
    refine inv.tasks.goto (.inr ?_)
    rw [here]
    rfl
  rw [reset]
  refine ⟨inv.calls.reset here, ⟨fun j owns => (by cases owns), fun i j ahead => ?_, fun j posts => ?_, held⟩, inv.safe⟩
  · obtain rfl := Option.some.inj (task.symm.trans (inv.tasks.ahead i j ahead))
    rcases ClosurePc.waiting_or_locks ahead with waits | locks
    · exact absurd waits (ended.1 i)
    · cases (inv.tasks.held (.closure i) k locks).symm.trans (inv.tasks.held (.stop t) k locked)
  · obtain rfl := Option.some.inj (task.symm.trans (inv.tasks.post j posts))
    exact absurd posts ended.2

theorem inv_next {s' : Timer τ} (inv : Inv s) (orderly : Orderly s (.next t)) (step : s.next t = some s') : Inv s' := by
  have mine := inv.calls.here t
  unfold next at step
  split at step
  · rename_i valid here
    cases step
    rw [here] at mine
    split
    · exact inv_newTask inv here
    · refine ⟨inv.calls.moves trivial (fun critical => by cases critical) fun _ off => ?_,
        inv.tasks.call rfl rfl rfl (fun _ => id) (inv.tasks.goto (.inl rfl)), inv.safe⟩
      cases mine.1.symm.trans off
  · rename_i here
    rw [here] at mine
    split at step
    · rename_i k task
      cases step
      refine ⟨inv.calls.moves trivial (fun critical => by cases critical) fun _ off => ?_,
        inv.tasks.call rfl rfl rfl (fun _ => id) (inv.tasks.goto (.inl rfl)), inv.safe⟩
      cases mine.1.symm.trans off
    · rename_i task
      exact absurd task mine.2
  · rename_i here
    rw [here] at mine
    split at step
    · rename_i k task
      cases step
      refine ⟨inv.calls.moves ⟨mine, ?_⟩ (fun _ => .inl ?_) (fun critical => by cases critical),
        inv.tasks.call rfl rfl rfl (fun _ => id) (inv.tasks.goto (.inl rfl)), inv.safe⟩
      · rw [task]
        exact Option.some_ne_none k
      · rw [here]
        rfl
    · rename_i task
      cases step
      exact ⟨inv.calls.returns mine task, inv.tasks.call rfl rfl rfl (fun _ => id) (inv.tasks.goto (.inl rfl)),
        inv.safe⟩
  · rename_i here
    rw [here] at mine
    split at step
    · rename_i k task
      cases step
      refine ⟨inv.calls.moves ⟨mine.1, task⟩ (fun _ => .inl ?_) (fun critical => by cases critical),
        inv.tasks.call rfl rfl rfl (fun _ => mem_acquire) (inv.tasks.goto (.inl rfl)), inv.safe⟩
      rw [here]
      rfl
    · rename_i task
      exact absurd task mine.2
  · rename_i k here
    rw [here] at mine
    split at step
    · rename_i free
      cases step
      refine ⟨inv.calls.moves mine (fun _ => .inl ?_) (fun critical => by cases critical),
        inv.tasks.call rfl rfl rfl (fun _ => id) (inv.tasks.held.lock free (locks_goto ..) fun _ => locks_goto_of_ne s),
        inv.safe⟩
      rw [here]
      rfl
    · cases step
  · rename_i k here
    cases step
    exact inv_reset inv here (orderly k here)
  · rename_i k here
    rw [here] at mine
    cases step
    have locked : s.locks (.stop t) = some k := by
      show (s.calls t).locks = _
      rw [here]
      rfl
    exact ⟨inv.calls.moves mine (fun critical => by cases critical) fun _ _ => mine.2,
      inv.tasks.call rfl rfl rfl (fun _ => id)
        (inv.tasks.held.unlock locked (locks_goto ..) fun _ => locks_goto_of_ne s), inv.safe⟩
  · rename_i k here
    rw [here] at mine
    cases step
    exact ⟨inv.calls.returns mine.1 mine.2,
      inv.tasks.call rfl rfl rfl (fun _ => mem_drop (by simp)) (inv.tasks.goto (.inl rfl)), inv.safe⟩
  all_goals cases step

omit [DecidableEq τ] in
theorem inv_tickLock {k : Nat} {s' : Timer τ} (inv : Inv s) (owned : ¬ s.Destroyed k → s.task = some k)
    (step : s.tickLock k = some s') : Inv s' := by
  unfold tickLock at step
  split at step
  · obtain ⟨-, moved⟩ := Option.ite_none_right_eq_some.mp step
    dsimp only at moved
    split at moved
    · cases moved
      exact ⟨inv.calls, inv.tasks.call rfl rfl rfl (fun _ => id) inv.tasks.held, inv.safe⟩
    · rename_i alive
      cases moved
      refine ⟨inv.calls, ⟨fun j owns => mem_acquire (inv.tasks.owned j owns), inv.tasks.ahead, fun j posts => ?_,
        inv.tasks.held⟩, inv.safe⟩
      cases posts
      exact owned alive
  · cases step

theorem inv_tickNext {s' : Timer τ} (inv : Inv s) (step : s.tickNext = some s') : Inv s' := by
  unfold tickNext at step
  split at step
  · rename_i k here
    cases step
    have held : Held (s.closureGoto s.posted (.posted k)).locks s.mutex := inv.tasks.closureGoto (.inl rfl)
    have posted : Tasks (s.closureGoto s.posted (.posted k)) :=
      inv.tasks.closure rfl rfl rfl (fun _ => id) (fun j ahead => (by cases ahead; exact inv.tasks.post k here)) held
    exact ⟨inv.calls, ⟨posted.owned, posted.ahead, fun j posts => (by cases posts), held⟩, inv.safe⟩
  · cases step
    exact ⟨inv.calls, ⟨fun j owns => mem_drop (by simp) (inv.tasks.owned j owns), inv.tasks.ahead,
      fun j posts => (by cases posts), inv.tasks.held⟩, inv.safe⟩
  · cases step

theorem inv_run {oneshot : Bool} {i : Nat} {s' : Timer τ} (inv : Inv s) (step : s.run oneshot i = some s') :
    Inv s' := by
  have ahead {k : Nat} (there : (s.closures i).ahead = some k) : s.task = some k := inv.tasks.ahead i k there
  unfold run at step
  split at step
  · rename_i k here
    have mine : s.task = some k := ahead (by rw [here]; rfl)
    cases step
    split
    · exact ⟨inv.calls, inv.tasks.closure rfl rfl rfl (fun _ => id) (fun j there => by cases there)
        (inv.tasks.closureGoto (.inl rfl)), inv.safe⟩
    · rw [if_neg (inv.tasks.alive mine)]
      exact ⟨inv.calls, inv.tasks.closure rfl rfl rfl (fun _ => id) (fun j there => by cases there; exact mine)
        (inv.tasks.closureGoto (.inl rfl)), inv.safe⟩
  · rename_i k here
    have mine : s.task = some k := ahead (by rw [here]; rfl)
    cases step
    rw [if_neg (inv.tasks.alive mine)]
    exact ⟨inv.calls, inv.tasks.closure rfl rfl rfl (fun _ => mem_acquire) (fun j there => by cases there; exact mine)
      (inv.tasks.closureGoto (.inl rfl)), inv.safe⟩
  · rename_i k here
    have mine : s.task = some k := ahead (by rw [here]; rfl)
    split at step
    · rename_i free
      cases step
      exact ⟨inv.calls, inv.tasks.closure rfl rfl rfl (fun _ => id) (fun j there => by cases there; exact mine)
        (inv.tasks.held.lock free (locks_closureGoto ..) fun _ => locks_closureGoto_of_ne s), inv.safe⟩
    · cases step
  · rename_i k here
    have mine : s.task = some k := ahead (by rw [here]; rfl)
    cases step
    have going : s.stopped = false := by
      by_contra ended
      cases mine.symm.trans (inv.calls.stopped (eq_true_of_ne_false ended))
    refine ⟨inv.calls, inv.tasks.closure rfl rfl rfl (fun _ => id) (fun j there => ?_)
      (inv.tasks.closureGoto (.inr ?_)), inv.safe.1, ?_⟩
    · split at there <;> cases there
    · rw [here]
      split <;> rfl
    · show (s.calledStopped || s.stopped) = false
      rw [inv.safe.2, going]
      rfl
  · rename_i k here
    cases step
    refine ⟨inv.calls, inv.tasks.closure rfl rfl rfl (fun _ => id) (fun j there => by cases there)
      (inv.tasks.closureGoto (.inr ?_)), inv.safe⟩
    rw [here]
    rfl
  · rename_i k here
    cases step
    have locked : s.locks (.closure i) = some k := by
      show (s.closures i).locks = _
      rw [here]
      rfl
    exact ⟨inv.calls, inv.tasks.closure rfl rfl rfl (fun _ => id) (fun j there => by cases there)
      (inv.tasks.held.unlock locked (locks_closureGoto ..) fun _ => locks_closureGoto_of_ne s), inv.safe⟩
  · cases step
    exact ⟨inv.calls, inv.tasks.closure rfl rfl rfl (fun _ => mem_drop (by simp)) (fun j there => by cases there)
      (inv.tasks.closureGoto (.inl rfl)), inv.safe⟩
  · cases step

theorem step_inv {oneshot : Bool} {e : Event τ} {s' : Timer τ} (inv : Inv s) (orderly : Orderly s e)
    (step : (machine τ oneshot).step s e = some s') : Inv s' := by
  cases e with
  | start t valid =>
    obtain ⟨-, ⟨⟩⟩ := Option.ite_none_right_eq_some.mp step
    exact inv_start inv orderly valid
  | stop t =>
    obtain ⟨-, ⟨⟩⟩ := Option.ite_none_right_eq_some.mp step
    exact inv_stop inv orderly
  | next t => exact inv_next inv orderly step
  | tick k => exact inv_tickLock inv orderly step
  | tickNext => exact inv_tickNext inv step
  | run i => exact inv_run inv step
  | shutdown =>
    cases step
    exact ⟨inv.calls, inv.tasks.call rfl rfl rfl (fun _ => id) inv.tasks.held, inv.safe⟩

omit [DecidableEq τ] in
theorem inv_new : Inv (new τ) where
  calls := ⟨fun _ => trivial, fun _ _ critical => (by cases critical), fun _ _ => rfl, fun _ => rfl⟩
  tasks := by
    refine ⟨fun k owns => (by cases owns), fun i k ahead => (by cases ahead), fun k posts => (by cases posts),
      fun o k locks => ?_⟩
    cases o <;> cases locks
  safe := ⟨rfl, rfl⟩

/-- In every orderly run, no closure has used the callback of a task that was destroyed, and the user's callback has
not been called between the return of a `Stop` and the next `Start`. -/
theorem stop_final {oneshot : Bool} (reach : (machine τ oneshot).ReachWhen Orderly s) :
    s.usedDestroyed = false ∧ s.calledStopped = false :=
  (reach.invariant inv_new fun _ _ _ inv orderly step => step_inv inv orderly step).safe

/-- A timer is started; its task is posted and its callback called; it is stopped. -/
def stopsAfter : List (Event Unit) :=
  [.start () true, .next (), .next (), .tick 0, .tickNext, .tickNext, .run 0, .run 0, .run 0, .run 0, .run 0, .run 0,
    .stop (), .next (), .next (), .next (), .next (), .next (), .next ()]

theorem stopsAfter_final :
    let s := (machine Unit true).stateAt stopsAfter 19
    s.stopped = true ∧ s.Destroyed 0 ∧ s.closures 0 = .done ∧ s.usedDestroyed = false ∧ s.calledStopped = false := by
  have meets : (machine Unit true).Meets Orderly (machine Unit true).init stopsAfter := by
    refine ⟨fun _ => rfl, fun _ here => (by cases here), fun _ here => (by cases here), fun _ => rfl, trivial, trivial,
      trivial, trivial, trivial, trivial, trivial, trivial, fun _ => rfl, fun _ here => (by cases here),
      fun _ here => (by cases here), fun _ here => (by cases here),
      fun k _ => ⟨fun i => ?_, fun posts => (by cases posts)⟩,
      fun _ here => (by cases here), fun _ here => (by cases here), trivial⟩
    cases i with
    | zero => exact fun waits => by cases waits
    | succ i => exact fun waits => by cases waits
  exact ⟨rfl, rfl, rfl, stop_final (Machine.stateAt_reachWhen stopsAfter meets rfl)⟩

/-- `Stop` comes after the closure was posted and before it runs. -/
def stopsBefore : List (Event Unit) :=
  [.start () true, .next (), .next (), .tick 0, .tickNext, .tickNext, .stop (), .next (), .next (), .next (), .next (),
    .next (), .next (), .run 0]

/-- `Stop` comes after the callback of the task has locked the weak pointer and before it locks the mutex. -/
def stopsWithin : List (Event Unit) :=
  [.start () true, .next (), .next (), .tick 0, .tickNext, .tickNext, .run 0, .run 0, .stop (), .next (), .next (),
    .next (), .next (), .next (), .next (), .run 0, .run 0]

/-- In the one the closure uses the callback of a destroyed task; in the other it calls the user's callback after
`Stop` has returned. -/
theorem stops_not_final :
    (∃ s, (machine Unit true).Reach s ∧ s.usedDestroyed = true) ∧
      ∃ s, (machine Unit true).Reach s ∧ s.calledStopped = true :=
  ⟨⟨_, Machine.stateAt_reach stopsBefore rfl, rfl⟩, _, Machine.stateAt_reach stopsWithin rfl, rfl⟩

end CyberRT.Timer

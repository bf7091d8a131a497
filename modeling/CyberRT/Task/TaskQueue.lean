import CyberRT.Base.BoundedQueueFifo

namespace CyberRT.TaskQueue
open Concur
variable {τ : Type}

/-- Which of the two functions called `Enqueue`. -/
inductive Owner
  | taskManager
  | threadPool
  deriving DecidableEq

/-- A call of `Enqueue` makes one packaged task, which carries the caller and the number of its call. -/
abbrev Task (τ : Type) := τ × Nat

/-- The queue and the flag `stop_`. `taken` records which thread each task was handed to, in the order of the
successful head CASes. -/
structure Shared (τ : Type) where
  queue : BoundedQueue (Task τ)
  stop : Bool
  taken : List (τ × Task τ)

/-- A caller or worker: where it stands in the queue, the task that its call has made, and the tasks for which
its calls have returned a valid future. -/
structure Local (τ : Type) where
  id : τ
  calls : Nat
  inner : BoundedQueue.Local (Task τ)
  task : Option (Task τ)
  futures : List (Task τ)

/-- What a thread outside of a call does next; a thread inside one takes its next step. -/
inductive Choice
  | enqueue
  | dequeue
  | stop
  | run (spurious : Bool)
  deriving DecidableEq

/-- A thread that is about to return from `Dequeue` with a task has been handed it. -/
def handed (id : τ) (taken : List (τ × Task τ)) : BoundedQueue.Local (Task τ) → List (τ × Task τ)
  | .deqReturn (some task) => taken ++ [(id, task)]
  | _ => taken

/-- One access inside the queue. `Enqueue` returns the future whatever the queue has answered. -/
def run (k : Shared τ) (l : Local τ) (spurious : Bool) : Option (Shared τ × Local τ) :=
  match l.inner with
  | .enqReturn _ => some (k, { l with inner := .idle, task := none, futures := l.task.toList ++ l.futures })
  | inner => (BoundedQueue.act k.queue inner (.run spurious)).map fun (queue, next) =>
      ({ k with queue := queue, taken := handed l.id k.taken next }, { l with inner := next })

/-- A call of `Enqueue` first reads `stop_`: a stopped manager still returns a valid future, a stopped pool does
not. A worker reads it before each `Dequeue`. -/
def act (owner : Owner) (k : Shared τ) (l : Local τ) : Choice → Option (Shared τ × Local τ)
  | .enqueue =>
    match l.inner with
    | .idle =>
      let task : Task τ := (l.id, l.calls)
      if k.stop then
        some (k, { l with
          calls := l.calls + 1
          futures := if owner = .taskManager then task :: l.futures else l.futures })
      else some (k, { l with calls := l.calls + 1, inner := .enqLoadTail task, task := some task })
    | _ => none
  | .dequeue =>
    match l.inner with
    | .idle => if k.stop then none else some (k, { l with inner := .deqLoadHead })
    | _ => none
  | .stop =>
    match l.inner with
    | .idle => some ({ k with stop := true }, l)
    | _ => none
  | .run spurious => run k l spurious

abbrev State (τ : Type) := Config τ (Shared τ) (Local τ)

/-- Any number of callers and workers. -/
def machine (τ : Type) [DecidableEq τ] [Inhabited τ] (owner : Owner) (size : Nat) : Machine (State τ) (τ × Choice) :=
  Config.machine ⟨.init size, false, []⟩ (fun t => ⟨t, 0, .idle, none, []⟩) (act owner)

/-- Every way a thread can move. -/
inductive Effect (k : Shared τ) : Local τ → Shared τ → Local τ → Prop
  | refused {l : Local τ} (futures) : k.stop = true → l.inner = .idle →
      Effect k l k { l with calls := l.calls + 1, futures := futures }
  | enqueue {l : Local τ} : k.stop = false → l.inner = .idle →
      Effect k l k { l with calls := l.calls + 1, inner := .enqLoadTail (l.id, l.calls), task := some (l.id, l.calls) }
  | dequeue {l : Local τ} : l.inner = .idle → Effect k l k { l with inner := .deqLoadHead }
  | stop {l : Local τ} : l.inner = .idle → Effect k l { k with stop := true } l
  | returns {l : Local τ} (result) : l.inner = .enqReturn result →
      Effect k l k { l with inner := .idle, task := none, futures := l.task.toList ++ l.futures }
  | inside {l : Local τ} {queue : BoundedQueue (Task τ)} {next : BoundedQueue.Local (Task τ)} {spurious : Bool} :
      (∀ result, l.inner ≠ .enqReturn result) → BoundedQueue.act k.queue l.inner (.run spurious) = some (queue, next) →
      Effect k l { k with queue := queue, taken := handed l.id k.taken next } { l with inner := next }

theorem act_effect {owner : Owner} {k k' : Shared τ} {l l' : Local τ} {c : Choice}
    (step : act owner k l c = some (k', l')) : Effect k l k' l' := by
  cases c with
  | enqueue =>
    simp only [act] at step
    split at step
    · rename_i idle
      split at step
      · rename_i stopped
        cases step
        exact .refused _ stopped idle
      · rename_i going
        cases step
        exact .enqueue (Bool.eq_false_iff.mpr going) idle
    · cases step
  | dequeue =>
    simp only [act] at step
    split at step
    · rename_i idle
      split at step
      · cases step
      · cases step
        exact .dequeue idle
    · cases step
  | stop =>
    simp only [act] at step
    split at step
    · rename_i idle
      cases step
      exact .stop idle
    · cases step
  | run spurious =>
    simp only [act, run] at step
    split at step
    · rename_i result returned
      cases step
      exact .returns result returned
    · rename_i notReturned
      obtain ⟨⟨queue, next⟩, moved, same⟩ := Option.map_eq_some_iff.mp step
      cases same
      exact .inside notReturned moved

theorem Effect.id {k k' : Shared τ} {l l' : Local τ} (effect : Effect k l k' l') : l'.id = l.id := by
  cases effect <;> rfl

/-- The queue with its threads. -/
def queueOf (s : State τ) : Config τ (BoundedQueue (Task τ)) (BoundedQueue.Local (Task τ)) :=
  s.project Shared.queue Local.inner

/-- A step changes nothing of the queue and its threads, or is a step of theirs. -/
theorem Effect.queue {k k' : Shared τ} {l l' : Local τ} (effect : Effect k l k' l') :
    (k'.queue = k.queue ∧ l'.inner = l.inner) ∨
      ∃ c, BoundedQueue.act k.queue l.inner c = some (k'.queue, l'.inner) := by
  cases effect with
  | refused | stop => exact .inl ⟨rfl, rfl⟩
  | enqueue _ idle => exact .inr ⟨.enqueue _, by rw [idle]; rfl⟩
  | dequeue idle => exact .inr ⟨.dequeue, by rw [idle]; rfl⟩
  | returns result returned => exact .inr ⟨.run false, by rw [returned]; rfl⟩
  | inside _ moved => exact .inr ⟨_, moved⟩

theorem queueOf_reach [DecidableEq τ] [Inhabited τ] {owner : Owner} {size : Nat} {s : State τ}
    (reach : (machine τ owner size).Reach s) : (BoundedQueue.machine τ size).Reach (queueOf s) :=
  Config.reach_project (fun _ _ _ _ _ step => (act_effect step).queue) reach

end CyberRT.TaskQueue

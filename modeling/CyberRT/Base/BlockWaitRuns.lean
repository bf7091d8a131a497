import CyberRT.Base.BlockWait

namespace CyberRT.BlockWait
open Concur
variable {τ T : Type}

/-- A producer that has committed and not yet notified. -/
def Local.notifying (l : Local τ T) : Nat :=
  match l.pc with
  | .queue (.enqReturn true) => 1
  | _ => 0

/-- A consumer in `Dequeue` that has yet to find the queue empty, or to take an element. -/
def Local.trying (l : Local τ T) : Nat :=
  match l.pc with
  | .queue .deqLoadHead | .queue (.deqLoadCommit _) | .queue (.deqRead _) | .queue (.deqCasHead _ _) => 1
  | _ => 0

/-- A consumer in `WaitDequeue` before its next `Dequeue`, not blocked. -/
def Local.returning (l : Local τ T) : Nat :=
  match l.pc with
  | .testBreak | .relock | .unlock => 1
  | _ => 0

/-- A consumer that has found the queue empty and does not wait yet. -/
def Local.late (l : Local τ T) : Nat :=
  match l.pc with
  | .queue (.deqReturn none) | .wait => 1
  | _ => 0

/-- A consumer in the wait, notified or not. -/
def Local.waits (l : Local τ T) : Nat :=
  match l.pc with
  | .waiting => 1
  | _ => 0

/-- A caller of `BreakAllWait` that has set the flag and not yet notified. -/
def Local.breaking (l : Local τ T) : Nat :=
  match l.pc with
  | .notifyAll => 1
  | _ => 0

/-- The committed elements in the queue. -/
def backlog (q : BoundedQueue T) : Nat :=
  q.commit - q.head - 1

/-- What an access inside the queue does to the committed elements and to those who look for them. -/
theorem inside_counts (id : τ) {q q' : BoundedQueue T} {inner next : BoundedQueue.Local T} {spurious : Bool}
    (inv : BoundedQueue.Inv q) (here : BoundedQueue.At q inner) (notReturned : inner ≠ .enqReturn true)
    (notEmpty : inner ≠ .deqReturn none) (moved : BoundedQueue.act q inner (.run spurious) = some (q', next)) :
    let l : Local τ T := ⟨id, .queue inner⟩
    let l' : Local τ T := ⟨id, .queue next⟩
    l.notifying = 0 ∧ l.late = 0 ∧
      ((backlog q' = backlog q ∧ l'.notifying = 0 ∧ l'.trying = l.trying ∧ l'.late = 0) ∨
        (backlog q' = backlog q + 1 ∧ l'.notifying = 1 ∧ l'.trying = l.trying ∧ l'.late = 0) ∨
        (backlog q' = 0 ∧ l'.notifying = 0 ∧ l.trying = 1 ∧ l'.trying = 0 ∧ l'.late = 1) ∨
        (backlog q' + 1 = backlog q ∧ l'.notifying = 0 ∧ l.trying = 1 ∧ l'.trying = 0 ∧ l'.late = 0)) := by
  have ordered := inv.head_lt_commit
  intro l l'
  cases BoundedQueue.act_cases moved with
  | enqueue | dequeue => cases moved
  | loadTail | full | room | ticket | retryTail | store | retryCommit | loadHead | waiting | read | retryHead =>
    exact ⟨rfl, rfl, .inl ⟨rfl, rfl, rfl, rfl⟩⟩
  | commit =>
    refine ⟨rfl, rfl, .inr (.inl ⟨?_, rfl, rfl, rfl⟩)⟩
    simp only [backlog]
    omega
  | enqReturn result =>
    cases result with
    | true => exact absurd rfl notReturned
    | false => exact ⟨rfl, rfl, .inl ⟨rfl, rfl, rfl, rfl⟩⟩
  | empty oldHead atCommit =>
    refine ⟨rfl, rfl, .inr (.inr (.inl ⟨?_, rfl, rfl, rfl, rfl⟩))⟩
    have stale : oldHead ≤ q.head := here
    simp only [backlog]
    omega
  | take element =>
    refine ⟨rfl, rfl, .inr (.inr (.inr ⟨?_, rfl, rfl, rfl, rfl⟩))⟩
    have committed := (here.2 rfl).1
    simp only [backlog]
    omega
  | deqReturn result =>
    cases result with
    | none => exact absurd rfl notEmpty
    | some element => exact ⟨rfl, rfl, .inl ⟨rfl, rfl, rfl, rfl⟩⟩

/-- The condition variable blocks only threads that wait, each once. -/
structure Blocks (waiters : List τ) (thread : τ → Local τ T) : Prop where
  nodup : waiters.Nodup
  waiting : ∀ t ∈ waiters, (thread t).pc = .waiting

section Step
variable [DecidableEq τ]

theorem Blocks.update {waiters rest : List τ} {thread : τ → Local τ T} (blocks : Blocks waiters thread)
    (fewer : rest.Sublist waiters) {t : τ} (gone : t ∉ rest) (l : Local τ T) :
    Blocks rest (Function.update thread t l) where
  nodup := blocks.nodup.sublist fewer
  waiting := by
    intro u member
    have different : u ≠ t := fun same => gone (same ▸ member)
    rw [Function.update_of_ne different]
    exact blocks.waiting u (fewer.subset member)

theorem Effect.blocks {k k' : Shared τ T} {thread : τ → Local τ T} {t : τ} {l l' : Local τ T} (here : thread t = l)
    (own : l.id = t) (blocks : Blocks k.waiters thread) (effect : Effect k l k' l') :
    Blocks k'.waiters (Function.update thread t l') := by
  have awake : l.pc ≠ .waiting → t ∉ k.waiters := by
    intro moving member
    have waiting := blocks.waiting t member
    rw [here] at waiting
    exact moving waiting
  cases effect with
  | notifyOne id picked =>
    have fewer := List.eraseIdx_sublist k.waiters (picked % k.waiters.length)
    exact blocks.update fewer (fun member => awake nofun (fewer.subset member)) _
  | wait id =>
    have absent : t ∉ k.waiters := awake nofun
    subst own
    refine ⟨?_, ?_⟩
    · rw [List.nodup_append_comm, List.singleton_append, List.nodup_cons]
      exact ⟨absent, blocks.nodup⟩
    · intro u member
      rcases List.mem_append.mp member with old | new
      · have different : u ≠ id := fun same => absent (same ▸ old)
        rw [Function.update_of_ne different]
        exact blocks.waiting u old
      · rw [List.mem_singleton.mp new, Function.update_self]
  | woken id =>
    subst own
    exact blocks.update List.erase_sublist (blocks.nodup.not_mem_erase) _
  | notifyAll id => exact blocks.update (List.nil_sublist _) List.not_mem_nil _
  | enqueue | waitDequeue | breakAllWait | inside | lock | broken | dequeue | relock | unlock =>
    exact blocks.update (List.Sublist.refl _) (awake nofun) _

end Step

section Counts
variable [Fintype τ]

/-- The producers that have committed and not yet notified, and the consumers that will look for an element
before they block, a consumer that has been woken among them. -/
def coming (s : State τ T) : Nat :=
  Config.total Local.notifying s.thread + Config.total Local.trying s.thread +
    Config.total Local.returning s.thread + (Config.total Local.waits s.thread - s.shared.waiters.length)

/-- The consumers between the `Dequeue` that has failed and the wait. -/
def late (s : State τ T) : Nat :=
  Config.total Local.late s.thread

structure Inv (s : State τ T) : Prop where
  ids : ∀ t, (s.thread t).id = t
  blocks : Blocks s.shared.waiters s.thread
  /-- While somebody is blocked or about to be, somebody comes for every element. -/
  served : s.shared.breakAllWait = false → 0 < s.shared.waiters.length + late s →
    backlog s.shared.queue ≤ coming s
  /-- Once the flag is set somebody will notify all, or nobody waits for it any more. -/
  broken : s.shared.breakAllWait = true → 0 < Config.total Local.breaking s.thread ∨
    (s.shared.waiters.length = 0 ∧ late s = 0 ∧ Config.total Local.trying s.thread = 0)

/-- No notification goes astray. A `notify_one` finds a consumer blocked, or nobody is between a failed
`Dequeue` and the wait, or enough others come for the elements, or the wait is being broken off. A `notify_all`
comes when no consumer is between its test of the flag and the wait, or another one will follow. -/
def InTime (s : State τ T) (e : τ × Choice T) : Prop :=
  ((s.thread e.1).notifying = 1 → s.shared.waiters = [] → s.shared.breakAllWait = false → late s ≠ 0 →
    backlog s.shared.queue + 1 ≤ coming s) ∧
  ((s.thread e.1).breaking = 1 → (late s = 0 ∧ Config.total Local.trying s.thread = 0) ∨
    2 ≤ Config.total Local.breaking s.thread)

instance (s : State τ T) (e : τ × Choice T) : Decidable (InTime s e) :=
  inferInstanceAs (Decidable (_ ∧ _))

/-- The condition variable blocks thread `t`. -/
def Blocked (s : State τ T) (t : τ) : Prop :=
  (s.thread t).pc = .waiting ∧ t ∈ s.shared.waiters

/-- Everybody who is in a call is a consumer that the condition variable blocks, and there is one, while a
committed element is in the queue or the wait has been broken off. -/
def Stuck (s : State τ T) : Prop :=
  (∀ t, (s.thread t).pc = .queue .idle ∨ Blocked s t) ∧ (∃ t, Blocked s t) ∧
    (0 < backlog s.shared.queue ∨ s.shared.breakAllWait = true)

variable [DecidableEq τ]

theorem waits_of_blocks {waiters : List τ} {thread : τ → Local τ T} (blocks : Blocks waiters thread) :
    waiters.length ≤ Config.total Local.waits thread := by
  refine Config.length_le_total blocks.nodup fun t member => ?_
  rw [Local.waits, blocks.waiting t member]

theorem Inv.not_stuck {s : State τ T} (inv : Inv s) : ¬ Stuck s := by
  rintro ⟨stopped, ⟨t, waiting, member⟩, reason⟩
  have zero {f : Local τ T → Nat} (idle : ∀ id, f ⟨id, .queue .idle⟩ = 0) (waits : ∀ id, f ⟨id, .waiting⟩ = 0) :
      Config.total f s.thread = 0 := by
    refine Config.total_eq_zero.mpr fun u => ?_
    rcases here : s.thread u with ⟨id, pc⟩
    rcases stopped u with same | ⟨same, -⟩ <;> simp only [here] at same <;> subst same
    · exact idle id
    · exact waits id
  have nonempty : 0 < s.shared.waiters.length := List.length_pos_of_mem member
  have all : Config.total Local.waits s.thread ≤ s.shared.waiters.length := by
    refine Config.total_le_length (fun u => ?_) fun u some => ?_
    · unfold Local.waits
      split <;> omega
    · rcases stopped u with idle | ⟨-, listed⟩
      · rw [Local.waits, idle] at some
        exact absurd rfl some
      · exact listed
  have served := inv.served
  have broken := inv.broken
  simp only [coming, late, zero (f := Local.notifying) (fun _ => rfl) fun _ => rfl,
    zero (f := Local.trying) (fun _ => rfl) fun _ => rfl, zero (f := Local.returning) (fun _ => rfl) fun _ => rfl,
    zero (f := Local.late) (fun _ => rfl) fun _ => rfl, zero (f := Local.breaking) (fun _ => rfl) fun _ => rfl]
    at served broken
  cases flag : s.shared.breakAllWait with
  | false =>
    have := served flag (by omega)
    rcases reason with waiting | wrong
    · omega
    · rw [flag] at wrong
      cases wrong
  | true =>
    have := broken flag
    omega

omit [DecidableEq τ] [Fintype τ] in
theorem notifyOne_length (k : Shared τ T) (picked : Nat) :
    (k.notifyOne picked).waiters.length = k.waiters.length - 1 := by
  rw [Shared.notifyOne, List.length_eraseIdx]
  split
  · rfl
  · rename_i outside
    have : k.waiters.length = 0 := by
      by_contra some
      exact outside (Nat.mod_lt _ (Nat.pos_of_ne_zero some))
    omega

/-- The counts of a thread before and after its step, and of all threads. -/
theorem counts_update (thread : τ → Local τ T) {t : τ} {l : Local τ T} (here : thread t = l) (l' : Local τ T)
    (f : Local τ T → Nat) :
    Config.total f (Function.update thread t l') + f l = Config.total f thread + f l' ∧
      f l ≤ Config.total f thread := by
  have moves := Config.total_update f thread t l'
  have own := Config.le_total f thread t
  rw [here] at moves own
  exact ⟨moves, own⟩

theorem Effect.served {s : State τ T} (inv : Inv s) {t : τ} {c : Choice T} {k' : Shared τ T} {l l' : Local τ T}
    (here : s.thread t = l) (effect : Effect s.shared l k' l') (queue : BoundedQueue.Inv s.shared.queue)
    (inner : BoundedQueue.At s.shared.queue l.pc.inner) (inTime : InTime s (t, c))
    (blocks : Blocks k'.waiters (Function.update s.thread t l')) (going : k'.breakAllWait = false)
    (some : 0 < k'.waiters.length + late (⟨k', Function.update s.thread t l'⟩ : State τ T)) :
    backlog k'.queue ≤ coming (⟨k', Function.update s.thread t l'⟩ : State τ T) := by
  have counts := counts_update s.thread here l'
  have notifying := counts Local.notifying
  have trying := counts Local.trying
  have returning := counts Local.returning
  have lates := counts Local.late
  have waits := counts Local.waits
  have before := waits_of_blocks inv.blocks
  have after := waits_of_blocks blocks
  have old := inv.served
  simp only [coming, late] at some old ⊢
  cases effect with
  | enqueue | waitDequeue | lock | dequeue | relock | unlock =>
    simp only [Local.notifying, Local.trying, Local.returning, Local.late, Local.waits] at *
    have := old going (by omega)
    omega
  | breakAllWait => cases going
  | broken id broken =>
    rw [broken] at going
    cases going
  | @inside id point next after spurious notReturned notEmpty moved =>
    have there : BoundedQueue.At s.shared.queue point := inner
    obtain ⟨noNotify, notLate, counted⟩ := inside_counts id queue there notReturned notEmpty moved
    simp only [Local.returning, Local.waits] at returning waits some ⊢
    have := old going
    omega
  | notifyOne id picked =>
    have found := notifyOne_length s.shared picked
    have empty := inTime.1
    simp only [here, ← List.length_eq_zero_iff, coming, late] at empty
    simp only [Local.notifying, Local.trying, Local.returning, Local.late, Local.waits] at *
    have flag : s.shared.breakAllWait = false := going
    have := old flag
    have queueKept : (s.shared.notifyOne picked).queue = s.shared.queue := rfl
    rw [queueKept]
    by_cases none : s.shared.waiters.length = 0
    · have := empty trivial none flag (by omega)
      omega
    · omega
  | wait =>
    simp only [Local.notifying, Local.trying, Local.returning, Local.late, Local.waits, List.length_append,
      List.length_singleton] at *
    have := old going (by omega)
    omega
  | woken id =>
    have flag : s.shared.breakAllWait = false := going
    simp only [Local.notifying, Local.trying, Local.returning, Local.late, Local.waits] at *
    have := old flag
    by_cases member : id ∈ s.shared.waiters
    · simp only [List.length_erase_of_mem member] at *
      omega
    · simp only [List.erase_of_not_mem member] at *
      omega
  | notifyAll =>
    simp only [Local.notifying, Local.trying, Local.returning, Local.late, Local.waits, List.length_nil] at *
    have := old going (by omega)
    omega

theorem Effect.broken_off {s : State τ T} (inv : Inv s) {t : τ} {c : Choice T} {k' : Shared τ T} {l l' : Local τ T}
    (here : s.thread t = l) (effect : Effect s.shared l k' l') (queue : BoundedQueue.Inv s.shared.queue)
    (inner : BoundedQueue.At s.shared.queue l.pc.inner) (inTime : InTime s (t, c)) (flag : k'.breakAllWait = true) :
    0 < Config.total Local.breaking (Function.update s.thread t l') ∨
      (k'.waiters.length = 0 ∧ Config.total Local.late (Function.update s.thread t l') = 0 ∧
        Config.total Local.trying (Function.update s.thread t l') = 0) := by
  have counts := counts_update s.thread here l'
  have trying := counts Local.trying
  have lates := counts Local.late
  have breaking := counts Local.breaking
  have old := inv.broken
  simp only [late] at old
  cases effect with
  | enqueue | waitDequeue | lock | broken | relock | unlock =>
    simp only [Local.trying, Local.late, Local.breaking] at *
    have := old flag
    omega
  | breakAllWait =>
    simp only [Local.breaking] at breaking
    omega
  | dequeue id going =>
    rw [going] at flag
    cases flag
  | @inside id point next after spurious notReturned notEmpty moved =>
    have there : BoundedQueue.At s.shared.queue point := inner
    obtain ⟨-, notLate, counted⟩ := inside_counts id queue there notReturned notEmpty moved
    simp only [Local.breaking] at breaking
    have := old flag
    dsimp only
    omega
  | notifyOne id picked =>
    have found := notifyOne_length s.shared picked
    simp only [Local.trying, Local.late, Local.breaking] at *
    have := old flag
    omega
  | wait id =>
    simp only [Local.trying, Local.late, Local.breaking] at *
    have := old flag
    omega
  | woken id =>
    have fewer : (s.shared.waiters.erase id).length ≤ s.shared.waiters.length := List.length_erase_le
    simp only [Local.trying, Local.late, Local.breaking] at *
    have := old flag
    omega
  | notifyAll =>
    have last := inTime.2 (by rw [here]; rfl)
    simp only [late] at last
    simp only [Local.trying, Local.late, Local.breaking] at trying lates breaking
    rcases last with ⟨noneLate, noneTrying⟩ | more
    · exact .inr ⟨rfl, by omega, by omega⟩
    · omega

theorem step_inv [Inhabited T] {size : Nat} {s s' : State τ T} {e : τ × Choice T}
    (reach : (machine τ size).Reach s) (inv : Inv s) (inTime : InTime s e)
    (step : (machine τ size).step s e = some s') : Inv s' := by
  obtain ⟨t, c⟩ := e
  obtain ⟨k, l, moved, rfl⟩ := Config.move_eq_some.mp step
  have holds := BoundedQueue.holds (queueOf_reach reach)
  have effect := act_effect moved
  have blocks := effect.blocks rfl (inv.ids t) inv.blocks
  have own : l.id = t := effect.id.trans (inv.ids t)
  exact {
    ids := (Function.forall_update_iff _ fun u (l : Local τ T) => l.id = u).mpr ⟨own, fun u _ => inv.ids u⟩
    blocks := blocks
    served := effect.served inv rfl holds.shared (holds.thread t) inTime blocks
    broken := effect.broken_off inv rfl holds.shared (holds.thread t) inTime }

theorem inv_init [Inhabited T] (size : Nat) : Inv (machine τ size : Machine (State τ T) _).init where
  ids := fun _ => rfl
  blocks := ⟨List.nodup_nil, nofun⟩
  served := fun _ _ => Nat.zero_le _
  broken := nofun

/-- No wake-up is lost in a run in which no notification goes astray. -/
theorem not_stuck_of_inTime [Inhabited T] {size : Nat} {s : State τ T}
    (reach : (machine τ size).ReachWhen InTime s) : ¬ Stuck s := by
  have inv : Inv s := reach.invariant_of_reach (inv_init size) fun _ _ _ => step_inv
  exact inv.not_stuck

end Counts

/-- A consumer waits before the producer comes, and is woken for the element. -/
def wokenInTime : List (Bool × Choice Nat) :=
  (true, .waitDequeue) :: List.replicate 5 (true, .run false 0) ++
    (false, .enqueue 7) :: List.replicate 6 (false, .run false 0)

theorem wokenInTime_not_stuck :
    let s := (machine Bool 2 : Machine (State Bool Nat) _).stateAt wokenInTime 13
    ¬ Stuck s ∧ backlog s.shared.queue = 1 ∧ s.shared.waiters = [] ∧ (s.thread true).waits = 1 := by
  have reach : (machine Bool 2 : Machine (State Bool Nat) _).ReachWhen InTime
      ((machine Bool 2).stateAt wokenInTime 13) :=
    Machine.stateAt_reachWhen wokenInTime (by decide) rfl
  exact ⟨not_stuck_of_inTime reach, by decide, by decide, by decide⟩

/-- The consumer has found the queue empty when the producer comes, and waits when the notification is over. -/
def notifiedEarly : List (Bool × Choice Nat) :=
  (true, .waitDequeue) :: List.replicate 3 (true, .run false 0) ++
    (false, .enqueue 7) :: List.replicate 6 (false, .run false 0) ++ List.replicate 2 (true, .run false 0)

theorem notifiedEarly_stuck :
    let s := (machine Bool 2 : Machine (State Bool Nat) _).stateAt notifiedEarly 13
    (machine Bool 2).Reach s ∧ Stuck s := by
  refine ⟨Machine.stateAt_reach (M := machine Bool 2) notifiedEarly rfl, ?_, ⟨true, rfl, by decide⟩, .inl (by decide)⟩
  intro t
  cases t with
  | false => exact .inl rfl
  | true => exact .inr ⟨rfl, by decide⟩

end CyberRT.BlockWait

import CyberRT.Lib.Machine

namespace Concur
universe u v w x

/-- Threads that share a memory: each thread has its own local state (program counter and
local variables). -/
structure Config (τ : Type u) (ρ : Type v) (ℓ : Type w) where
  shared : ρ
  thread : τ → ℓ

namespace Config
variable {τ : Type u} {ρ : Type v} {ℓ : Type w} {γ : Type x} [DecidableEq τ]

/-- One atomic step of one thread. `act` reads and writes the shared memory and the local state
of the thread that moves; `γ` resolves what the program leaves open. -/
def move (act : ρ → ℓ → γ → Option (ρ × ℓ)) (s : Config τ ρ ℓ) (e : τ × γ) :
    Option (Config τ ρ ℓ) :=
  (act s.shared (s.thread e.1) e.2).map fun r => ⟨r.1, Function.update s.thread e.1 r.2⟩

/-- The interleavings of all threads. -/
def machine (shared : ρ) (thread : τ → ℓ) (act : ρ → ℓ → γ → Option (ρ × ℓ)) :
    Machine (Config τ ρ ℓ) (τ × γ) where
  init := ⟨shared, thread⟩
  step := move act

variable {act : ρ → ℓ → γ → Option (ρ × ℓ)}

theorem move_eq_some {s s' : Config τ ρ ℓ} {t : τ} {c : γ} :
    move act s (t, c) = some s' ↔
      ∃ r l, act s.shared (s.thread t) c = some (r, l) ∧ s' = ⟨r, Function.update s.thread t l⟩ := by
  simp only [move, Option.map_eq_some_iff, Prod.exists]
  constructor
  · rintro ⟨r, l, moved, rfl⟩
    exact ⟨r, l, moved, rfl⟩
  · rintro ⟨r, l, moved, rfl⟩
    exact ⟨r, l, moved, rfl⟩

section Update
variable {thread : τ → ℓ} {t : τ} {l : ℓ} {P P' : ℓ → Prop}

theorem exists_own (own : P l) : ∃ u, P (Function.update thread t l u) :=
  ⟨t, by rwa [Function.update_self]⟩

/-- What some thread is about to do is still to be done after a step of `t`, if `t` has not just done it. -/
theorem exists_move (others : ∀ m, P m → P' m) (own : P (thread t) → P' l) (before : ∃ u, P (thread u)) :
    ∃ u, P' (Function.update thread t l u) := by
  obtain ⟨u, there⟩ := before
  by_cases same : u = t
  · exact exists_own (own (same ▸ there))
  · exact ⟨u, by simpa only [Function.update_of_ne same] using others _ there⟩

theorem own_or_exists (before : ∃ u, P (thread u)) : P (thread t) ∨ ∃ u, P (Function.update thread t l u) :=
  or_iff_not_imp_left.mpr fun others => exists_move (fun _ => id) (fun mine => absurd mine others) before

end Update

/-- An assertion about the shared memory, one about each thread and one about each pair of
threads, kept by the thread that moves and by every other thread. -/
structure Outline (act : ρ → ℓ → γ → Option (ρ × ℓ)) (Inv : ρ → Prop) (At : ρ → ℓ → Prop)
    (Apart : ℓ → ℓ → Prop) : Prop where
  /-- The thread that moves keeps the shared assertion and reaches its own next one. -/
  own : ∀ r l c r' l', Inv r → At r l → act r l c = some (r', l') → Inv r' ∧ At r' l'
  /-- No other thread invalidates the assertion at which a thread stands. -/
  other : ∀ r l c r' l' m, Inv r → At r l → At r m → Apart l m → Apart m l →
    act r l c = some (r', l') → At r' m ∧ Apart l' m ∧ Apart m l'

/-- What an outline asserts of a whole configuration. -/
structure Holds (Inv : ρ → Prop) (At : ρ → ℓ → Prop) (Apart : ℓ → ℓ → Prop)
    (s : Config τ ρ ℓ) : Prop where
  shared : Inv s.shared
  thread : ∀ t, At s.shared (s.thread t)
  apart : ∀ t u, t ≠ u → Apart (s.thread t) (s.thread u)

/-- The thread that moves reaches its next assertion, and every other one keeps its own. -/
theorem Holds.move {Inv : ρ → Prop} {At : ρ → ℓ → Prop} {Apart : ℓ → ℓ → Prop} {s : Config τ ρ ℓ}
    (holds : Holds Inv At Apart s) {t : τ} {r : ρ} {l : ℓ} (own : Inv r ∧ At r l)
    (others : ∀ u, u ≠ t → At r (s.thread u) ∧ Apart l (s.thread u) ∧ Apart (s.thread u) l) :
    Holds Inv At Apart ⟨r, Function.update s.thread t l⟩ := by
  refine ⟨own.1, fun u => ?_, fun u v different => ?_⟩
  · by_cases same : u = t
    · subst same
      simpa using own.2
    · simpa [same] using (others u same).1
  · by_cases first : u = t
    · subst first
      simpa [different.symm] using (others v different.symm).2.1
    · by_cases second : v = t
      · subst second
        simpa [first] using (others u first).2.2
      · simpa [first, second] using holds.apart u v different

theorem Outline.move {Inv : ρ → Prop} {At : ρ → ℓ → Prop} {Apart : ℓ → ℓ → Prop}
    (outline : Outline act Inv At Apart) {s s' : Config τ ρ ℓ} {e : τ × γ}
    (holds : Holds Inv At Apart s) (step : move act s e = some s') : Holds Inv At Apart s' := by
  obtain ⟨t, c⟩ := e
  obtain ⟨r, l, moved, rfl⟩ := move_eq_some.mp step
  exact holds.move (outline.own _ _ _ _ _ holds.shared (holds.thread t) moved) fun u different =>
    outline.other _ _ _ _ _ _ holds.shared (holds.thread t) (holds.thread u) (holds.apart t u different.symm)
      (holds.apart u t different) moved

/-- The rule of the outline: what it asserts of the initial configuration holds in every
configuration of every interleaving. -/
theorem Outline.reach {Inv : ρ → Prop} {At : ρ → ℓ → Prop} {Apart : ℓ → ℓ → Prop}
    (outline : Outline act Inv At Apart) {shared : ρ} {thread : τ → ℓ}
    (base : Holds Inv At Apart ⟨shared, thread⟩) {s : Config τ ρ ℓ}
    (reach : (machine shared thread act).Reach s) : Holds Inv At Apart s :=
  Machine.Reach.invariant (M := machine shared thread act) base
    (fun _ _ _ holds step => outline.move holds step) reach

open Classical in
/-- The steps of `act` that meet `ok`. -/
noncomputable def guarded (ok : ρ → ℓ → γ → Prop) (act : ρ → ℓ → γ → Option (ρ × ℓ)) (r : ρ) (l : ℓ) (c : γ) :
    Option (ρ × ℓ) :=
  if ok r l c then act r l c else none

theorem guarded_eq_some {ok : ρ → ℓ → γ → Prop} {r : ρ} {l : ℓ} {c : γ} {next : ρ × ℓ} :
    guarded ok act r l c = some next ↔ ok r l c ∧ act r l c = some next := by
  unfold guarded
  split
  · simp [*]
  · simp [*]

/-- The rule of the outline for the runs whose steps all meet `ok`. -/
theorem Outline.reachWhen {ok : ρ → ℓ → γ → Prop} {Inv : ρ → Prop} {At : ρ → ℓ → Prop} {Apart : ℓ → ℓ → Prop}
    (outline : Outline (guarded ok act) Inv At Apart) {shared : ρ} {thread : τ → ℓ}
    (base : Holds Inv At Apart ⟨shared, thread⟩) {s : Config τ ρ ℓ}
    (reach : (machine shared thread act).ReachWhen (fun s e => ok s.shared (s.thread e.1) e.2) s) :
    Holds Inv At Apart s := by
  refine reach.invariant (P := Holds Inv At Apart) base fun s e s' holds allowed step => ?_
  obtain ⟨r, l, moved, rfl⟩ := move_eq_some.mp step
  exact outline.move holds (move_eq_some.mpr ⟨r, l, guarded_eq_some.mpr ⟨allowed, moved⟩, rfl⟩)

/-- An outline for the runs whose steps all meet `ok`, and `clear` with respect to every other thread. -/
structure OutlineWhen (act : ρ → ℓ → γ → Option (ρ × ℓ)) (ok : ρ → ℓ → γ → Prop) (clear : ℓ → γ → ℓ → Prop)
    (Inv : ρ → Prop) (At : ρ → ℓ → Prop) (Apart : ℓ → ℓ → Prop) : Prop where
  own : ∀ r l c r' l', Inv r → At r l → ok r l c → act r l c = some (r', l') → Inv r' ∧ At r' l'
  other : ∀ r l c r' l' m, Inv r → At r l → At r m → Apart l m → Apart m l → ok r l c → clear l c m →
    act r l c = some (r', l') → At r' m ∧ Apart l' m ∧ Apart m l'

/-- The steps that meet `ok`, and `clear` with respect to every other thread. -/
def Clear (ok : ρ → ℓ → γ → Prop) (clear : ℓ → γ → ℓ → Prop) (s : Config τ ρ ℓ) (e : τ × γ) : Prop :=
  ok s.shared (s.thread e.1) e.2 ∧ ∀ u, u ≠ e.1 → clear (s.thread e.1) e.2 (s.thread u)

theorem OutlineWhen.reach {ok : ρ → ℓ → γ → Prop} {clear : ℓ → γ → ℓ → Prop} {Inv : ρ → Prop} {At : ρ → ℓ → Prop}
    {Apart : ℓ → ℓ → Prop} (outline : OutlineWhen act ok clear Inv At Apart) {shared : ρ} {thread : τ → ℓ}
    (base : Holds Inv At Apart ⟨shared, thread⟩) {s : Config τ ρ ℓ}
    (reach : (machine shared thread act).ReachWhen (Clear ok clear) s) : Holds Inv At Apart s := by
  refine reach.invariant (P := Holds Inv At Apart) base fun s e s' holds allowed step => ?_
  obtain ⟨t, c⟩ := e
  obtain ⟨r, l, moved, rfl⟩ := move_eq_some.mp step
  exact holds.move (outline.own _ _ _ _ _ holds.shared (holds.thread t) allowed.1 moved) fun u different =>
    outline.other _ _ _ _ _ _ holds.shared (holds.thread t) (holds.thread u) (holds.apart t u different.symm)
      (holds.apart u t different) allowed.1 (allowed.2 u different) moved

section Project
variable {ρ' : Type*} {ℓ' : Type*} {γ' : Type*}

/-- A configuration seen through a view of the shared memory and one of the threads. -/
def project (f : ρ → ρ') (g : ℓ → ℓ') (s : Config τ ρ ℓ) : Config τ ρ' ℓ' :=
  ⟨f s.shared, fun t => g (s.thread t)⟩

omit [DecidableEq τ] in
@[simp] theorem project_shared (f : ρ → ρ') (g : ℓ → ℓ') (s : Config τ ρ ℓ) : (s.project f g).shared = f s.shared := rfl

omit [DecidableEq τ] in
@[simp] theorem project_thread (f : ρ → ρ') (g : ℓ → ℓ') (s : Config τ ρ ℓ) (t : τ) :
    (s.project f g).thread t = g (s.thread t) := rfl

/-- A program whose every step is, in a view of it, a step of another program or no step at all, stays in view
where the other program can go. -/
theorem reach_project {f : ρ → ρ'} {g : ℓ → ℓ'} {act' : ρ' → ℓ' → γ' → Option (ρ' × ℓ')}
    (simulates : ∀ r l c r' l', act r l c = some (r', l') →
      (f r' = f r ∧ g l' = g l) ∨ ∃ c', act' (f r) (g l) c' = some (f r', g l'))
    {shared : ρ} {thread : τ → ℓ} {s : Config τ ρ ℓ} (reach : (machine shared thread act).Reach s) :
    (machine (f shared) (fun t => g (thread t)) act').Reach (s.project f g) := by
  refine Machine.Reach.invariant (M := machine shared thread act)
    (P := fun s => (machine (f shared) (fun t => g (thread t)) act').Reach (s.project f g)) .start ?_ reach
  rintro s ⟨t, c⟩ s' before step
  obtain ⟨r, l, moved, rfl⟩ := move_eq_some.mp step
  have threads : (project f g ⟨r, Function.update s.thread t l⟩).thread =
      Function.update (s.project f g).thread t (g l) := by
    funext u
    exact Function.apply_update (fun _ => g) s.thread t l u
  rcases simulates _ _ _ _ _ moved with ⟨sameShared, sameLocal⟩ | ⟨c', moved'⟩
  · have unmoved : Function.update (s.project f g).thread t (g l) = (s.project f g).thread := by
      rw [sameLocal]
      exact Function.update_eq_self t (s.project f g).thread
    have same : project f g ⟨r, Function.update s.thread t l⟩ = s.project f g :=
      congrArg₂ Config.mk sameShared (threads.trans unmoved)
    rw [same]
    exact before
  · have next : move act' (s.project f g) (t, c') = some (project f g ⟨r, Function.update s.thread t l⟩) :=
      move_eq_some.mpr ⟨f r, g l, moved', congrArg (Config.mk (f r)) threads⟩
    exact .next before trivial next

end Project

/-- Thread `t` starts the operation `c` at step `i` and is still inside it in state `j`. -/
structure InCall (idle : ℓ) (state : Nat → Config τ ρ ℓ) (event : Nat → τ × γ) (t : τ) (c : γ)
    (i j : Nat) : Prop where
  called : event i = (t, c)
  later : i < j
  going : ∀ k, i < k → k ≤ j → (state k).thread t ≠ idle

/-- Induction along an operation: a property of the states since it started that its first step
establishes, and that each of its further steps and the steps of other threads keep. -/
theorem InCall.induction {shared : ρ} {thread : τ → ℓ} {n : Nat} {state : Nat → Config τ ρ ℓ}
    {event : Nat → τ × γ} (run : (machine shared thread act).Run n state event) {idle : ℓ} {t : τ} {c : γ}
    {i j : Nat} (call : InCall idle state event t c i j) (bound : j ≤ n) {P : Nat → ℓ → Prop}
    (start : ∀ r l, act (state i).shared ((state i).thread t) c = some (r, l) → P (i + 1) l)
    (own : ∀ k c r l l', i ≤ k → k < n → (state k).thread t = l → P k l → event k = (t, c) →
      act (state k).shared l c = some (r, l') → l' ≠ idle → P (k + 1) l')
    (other : ∀ k l, P k l → P (k + 1) l) : P j ((state j).thread t) := by
  have moves : ∀ k, k < n → ∃ u d r l, event k = (u, d) ∧
      act (state k).shared ((state k).thread u) d = some (r, l) ∧
      (state (k + 1)).thread = Function.update (state k).thread u l := by
    intro k before
    rcases step : event k with ⟨u, d⟩
    obtain ⟨r, l, moved, after⟩ := move_eq_some.mp (step ▸ run.next k before)
    exact ⟨u, d, r, l, rfl, moved, by rw [after]⟩
  have upTo : ∀ k, i + 1 ≤ k → k ≤ j → P k ((state k).thread t) := by
    intro k after
    induction k, after using Nat.le_induction with
    | base =>
      intro _
      obtain ⟨u, d, r, l, step, moved, next⟩ := moves i (call.later.trans_le bound)
      obtain ⟨rfl, rfl⟩ := Prod.mk.inj (step.symm.trans call.called)
      simpa [next] using start r l moved
    | succ k after ih =>
      intro within
      have before := ih (by omega)
      have going := call.going (k + 1) (by omega) within
      obtain ⟨u, d, r, l, step, moved, next⟩ := moves k (by omega)
      by_cases same : u = t
      · subst same
        rw [next, Function.update_self] at going ⊢
        exact own k d r _ l (by omega) (by omega) rfl before step moved going
      · rw [next, Function.update_of_ne (Ne.symm same)]
        exact other k _ before
  exact upTo j call.later le_rfl

end Config

end Concur

import CyberRT.Croutine.SwapContext
import CyberRT.Scheduler.Exclusion

namespace CyberRT.Contexts
open Ram X86 Concur
open CyberRT.Scheduler (updateState_lock resume_lock)
universe u v
variable {τ : Type u} {ρ : Type v}

/-- What runs on a stack of its own: a thread as it was started, or a coroutine. -/
inductive Context (τ : Type u) (ρ : Type v)
  | main (t : τ)
  | routine (r : ρ)
  deriving DecidableEq

/-- The coroutine of a context. -/
def Context.current : Context τ ρ → Option ρ
  | .main _ => none
  | .routine r => some r

/-- Where the stacks are, and the words that hold the stack pointers of the contexts that do not run. No two contexts
share any of these bytes. -/
structure Layout (τ : Type u) (ρ : Type v) where
  sp : Context τ ρ → Word
  stack : Context τ ρ → Word
  size : Context τ ρ → Nat
  routine_size : ∀ r, size (.routine r) = stackSize
  size_lt : ∀ c, size c < 2 ^ 64
  apart : ∀ c d, c ≠ d → Apart (sp c) 8 (sp d) 8 ∧ Apart (sp c) 8 (stack d) (size d) ∧
    Apart (stack c) (size c) (stack d) (size d)
  own : ∀ c, Apart (sp c) 8 (stack c) (size c)

/-- A thread, with the coroutines that it acquired and the one that it is running. -/
structure Thread (ρ : Type v) where
  regs : Register → Word
  rip : Word
  acquired : ρ → Bool
  current : Option ρ

structure State (τ : Type u) (ρ : Type v) where
  thread : τ → Thread ρ
  routines : ρ → CRoutine
  made : ρ → Bool
  mem : Bytes

inductive Event (ρ : Type v)
  /-- The thread runs code of its own. -/
  | compute (regs : Register → Word) (rip : Word) (mem : Bytes)
  | make (r : ρ) (f1 arg : Word) (now : Nat)
  | acquire (r : ρ)
  | release (r : ρ)
  | updateState (r : ρ) (now : Nat)
  | setUpdateFlag (r : ρ)
  | stop (r : ρ)
  | setState (state : RoutineState)
  /-- `Resume`, whose call of `SwapContext` returns to an address. -/
  | resume (r : ρ) (here : Word)
  /-- `Yield`, with the state that it sets, if any. -/
  | yield (state : Option RoutineState) (here : Word)

variable (L : Layout τ ρ)

section Steps
variable [DecidableEq τ] [DecidableEq ρ]

namespace State
variable (s : State τ ρ)

def cpu (t : τ) : Cpu :=
  ⟨(s.thread t).regs, (s.thread t).rip, s.mem⟩

def setRoutine (r : ρ) (routine : CRoutine) : State τ ρ :=
  { s with routines := Function.update s.routines r routine }

def setThread (t : τ) (thread : Thread ρ) : State τ ρ :=
  { s with thread := Function.update s.thread t thread }

/-- A thread swaps the context that it runs for another. -/
def swap (t : τ) (src dst : Context τ ρ) (here : Word) (current : Option ρ) : State τ ρ :=
  let c := swapContext (s.cpu t) (L.sp src) (L.sp dst) here
  { s.setThread t { s.thread t with regs := c.regs, rip := c.rip, current := current } with mem := c.mem }

end State

def step (s : State τ ρ) : τ × Event ρ → Option (State τ ρ)
  | (t, .compute regs rip mem) =>
    some { s.setThread t { s.thread t with regs := regs, rip := rip } with mem := mem }
  | (_, .make r f1 arg now) =>
    some { s.setRoutine r (.new now) with
      made := Function.update s.made r true
      mem := makeContext s.mem (L.stack (.routine r)) (L.sp (.routine r)) f1 arg }
  | (t, .acquire r) =>
    if s.made r then
      let (free, routine) := (s.routines r).acquire
      let s := s.setRoutine r routine
      some (if free then s.setThread t { s.thread t with acquired := Function.update (s.thread t).acquired r true }
        else s)
    else none
  | (t, .release r) =>
    if (s.thread t).acquired r ∧ (s.thread t).current ≠ some r then
      some ((s.setRoutine r (s.routines r).release).setThread t
        { s.thread t with acquired := Function.update (s.thread t).acquired r false })
    else none
  | (t, .updateState r now) =>
    if (s.thread t).acquired r ∧ (s.thread t).current ≠ some r then
      some (s.setRoutine r ((s.routines r).updateState now))
    else none
  | (_, .setUpdateFlag r) => some (s.setRoutine r (s.routines r).setUpdateFlag)
  | (_, .stop r) => some (s.setRoutine r (s.routines r).stop)
  | (t, .setState state) =>
    match (s.thread t).current with
    | some r => some (s.setRoutine r ((s.routines r).setState state))
    | none => none
  | (t, .resume r here) =>
    if (s.thread t).acquired r ∧ (s.thread t).current = none then
      let (switches, routine) := (s.routines r).resume
      let s := s.setRoutine r routine
      some (if switches then s.swap L t (.main t) (.routine r) here (some r) else s)
    else none
  | (t, .yield state here) =>
    match (s.thread t).current with
    | some r =>
      let s := s.setRoutine r (state.elim (s.routines r) (s.routines r).setState)
      some (s.swap L t (.routine r) (.main t) here none)
    | none => none

omit [DecidableEq ρ] in
theorem State.swap_mem (s : State τ ρ) (t : τ) (src dst : Context τ ρ) (here : Word) (current : Option ρ) :
    (s.swap L t src dst here current).mem = (swapContext (s.cpu t) (L.sp src) (L.sp dst) here).mem := by
  dsimp only [State.swap, State.setThread]

omit [DecidableEq ρ] in
theorem State.swap_thread (s : State τ ρ) (t : τ) (src dst : Context τ ρ) (here : Word) (current : Option ρ) :
    (s.swap L t src dst here current).thread = Function.update s.thread t { s.thread t with
      regs := (swapContext (s.cpu t) (L.sp src) (L.sp dst) here).regs
      rip := (swapContext (s.cpu t) (L.sp src) (L.sp dst) here).rip
      current := current } := by
  dsimp only [State.swap, State.setThread]

omit [DecidableEq ρ] in
theorem State.swap_routines (s : State τ ρ) (t : τ) (src dst : Context τ ρ) (here : Word) (current : Option ρ) :
    (s.swap L t src dst here current).routines = s.routines := by
  dsimp only [State.swap, State.setThread]

/-- The threads start on their own stacks, with no coroutine. -/
def machine (regs : τ → Register → Word) (rip : τ → Word) (mem : Bytes) : Machine (State τ ρ) (τ × Event ρ) where
  init := {
    thread := fun t => ⟨regs t, rip t, fun _ => false, none⟩
    routines := fun _ => .new 0
    made := fun _ => false
    mem := mem }
  step := step L

end Steps

namespace State
variable (s : State τ ρ)

def Parked : Context τ ρ → Prop
  | .main t => (s.thread t).current ≠ none
  | .routine r => s.made r = true ∧ ∀ t, (s.thread t).current ≠ some r

/-- The bytes that belong to a context while it does not run: the word that holds its stack pointer, and its stack from
there on. -/
def Holds (c : Context τ ρ) (x : Word) : Prop :=
  Within (L.sp c) 8 x ∨
    Within (load s.mem (L.sp c)) (L.size c - (load s.mem (L.sp c) - L.stack c).toNat) x

/-- A context has room on its stack for what a swap pushes. -/
def Room (c : Context τ ρ) (rsp : Word) : Prop :=
  64 ≤ (rsp - L.stack c).toNat ∧ (rsp - L.stack c).toNat ≤ L.size c

instance (c : Context τ ρ) (rsp : Word) : Decidable (Room L c rsp) :=
  inferInstanceAs (Decidable (_ ∧ _))

/-- A thread goes from one context to another. -/
inductive Switches : τ × Event ρ → τ → Context τ ρ → Context τ ρ → Word → Prop
  | resume {t : τ} {r : ρ} {here : Word} (acquired : (s.thread t).acquired r = true)
      (idle : (s.thread t).current = none) (ready : (s.routines r).resume.1 = true) :
      Switches (t, .resume r here) t (.main t) (.routine r) here
  | yield {t : τ} {r : ρ} {state : Option RoutineState} {here : Word} (running : (s.thread t).current = some r) :
      Switches (t, .yield state here) t (.routine r) (.main t) here

/-- What is left to the code between the swaps: it writes nothing that belongs to a context that does not run, makes a
context anew only when no thread has it, and swaps only with room on its stack. -/
def Allowed (e : τ × Event ρ) : Prop :=
  (∀ regs rip mem, e.2 = .compute regs rip mem → ∀ c, s.Parked c → ∀ x, s.Holds L c x → mem x = s.mem x) ∧
    (∀ r f1 arg now, e.2 = .make r f1 arg now →
      ∀ t, (s.thread t).acquired r = false) ∧
    ∀ t src dst here, s.Switches e t src dst here → Room L src ((s.thread t).regs .rsp)

end State

variable {L}

theorem Layout.stack_not_sp (L : Layout τ ρ) (c d : Context τ ρ) : Apart (L.stack c) (L.size c) (L.sp d) 8 := by
  by_cases same : c = d
  · subst same
    exact (L.own c).symm
  · exact (L.apart d c (Ne.symm same)).2.1.symm

/-- What a swap pushes goes to the stack of the context. -/
theorem State.Room.within {c : Context τ ρ} {rsp x : Word} (room : State.Room L c rsp)
    (inside : Within (rsp - 64) 64 x) : Within (L.stack c) (L.size c) x := by
  obtain ⟨low, high⟩ := room
  unfold Within at inside ⊢
  bv_omega

theorem State.Room.live_within {c : Context τ ρ} {rsp x : Word} (room : State.Room L c rsp)
    (inside : Within (rsp - 64) (L.size c - (rsp - 64 - L.stack c).toNat) x) : Within (L.stack c) (L.size c) x := by
  obtain ⟨low, high⟩ := room
  have below : (rsp - 64 - L.stack c).toNat = (rsp - L.stack c).toNat - 64 := by bv_omega
  rw [below] at inside
  unfold Within at inside ⊢
  bv_omega

theorem State.Room.live_of_within {c : Context τ ρ} {rsp x : Word} (room : State.Room L c rsp)
    (inside : Within (rsp - 64) 64 x) : Within (rsp - 64) (L.size c - (rsp - 64 - L.stack c).toNat) x := by
  obtain ⟨low, high⟩ := room
  have below : (rsp - 64 - L.stack c).toNat = (rsp - L.stack c).toNat - 64 := by bv_omega
  rw [below]
  unfold Within at inside ⊢
  omega

/-- What a context has on its stack when it calls `ctx_swap`. -/
theorem State.Room.above {c : Context τ ρ} {rsp x : Word} (room : State.Room L c rsp)
    (inside : Within rsp (L.size c - (rsp - L.stack c).toNat) x) :
    Within (rsp - 64) (L.size c - (rsp - 64 - L.stack c).toNat) x ∧ ¬ Within (rsp - 64) 64 x := by
  have small := L.size_lt c
  obtain ⟨low, high⟩ := room
  have below : (rsp - 64 - L.stack c).toNat = (rsp - L.stack c).toNat - 64 := by bv_omega
  rw [below]
  unfold Within at inside ⊢
  have offset : (x - (rsp - 64)).toNat = (x - rsp).toNat + 64 := by bv_omega
  rw [offset]
  omega

theorem State.Holds.owned {s : State τ ρ} {c : Context τ ρ} {x : Word}
    (room : State.Room L c (load s.mem (L.sp c) + 64)) (holds : s.Holds L c x) :
    Within (L.sp c) 8 x ∨ Within (L.stack c) (L.size c) x := by
  have live : Within (load s.mem (L.sp c) + 64 - 64) _ x → _ := room.live_within
  rw [BitVec.add_sub_cancel] at live
  exact holds.imp_right live

/-- Any word may be taken for a stack pointer that was stored. -/
theorem exists_suspended (mem : Bytes) (sp : Word) :
    ∃ kept returnAddress, kept.length = 7 ∧ Suspended mem sp kept (load mem sp + 64) returnAddress := by
  obtain ⟨kept, length, frame⟩ := Cpu.Frame.exists_words mem (load mem sp) 7
  have bottom : load mem sp + 64 - 64 = load mem sp := by rw [BitVec.add_sub_cancel]
  refine ⟨kept, load mem (load mem sp + BitVec.ofNat 64 (8 * kept.length)), length, bottom.symm, ?_⟩
  rw [bottom]
  exact frame.append ⟨by rfl, trivial⟩

variable [DecidableEq τ] [DecidableEq ρ] {s s' : State τ ρ} {c : Context τ ρ} {e : τ × Event ρ}

/-- A thread runs only a coroutine that it acquired, and no two threads acquire the same one. -/
structure Locks (s : State τ ρ) : Prop where
  runs : ∀ t r, (s.thread t).current = some r → (s.thread t).acquired r = true
  locked : ∀ t r, (s.thread t).acquired r = true → (s.routines r).lock = true
  once : ∀ t u r, (s.thread t).acquired r = true → (s.thread u).acquired r = true → t = u
  made : ∀ t r, (s.thread t).acquired r = true → s.made r = true

/-- What a step does to the memory and to the contexts that run. -/
inductive Effect (L : Layout τ ρ) (s : State τ ρ) (e : τ × Event ρ) (s' : State τ ρ) : Prop
  | switch (t : τ) (src dst : Context τ ρ) (here : Word) (switches : s.Switches e t src dst here) (s₁ : State τ ρ)
      (thread : s₁.thread = s.thread) (mem : s₁.mem = s.mem) (made : s₁.made = s.made)
      (swapped : s' = s₁.swap L t src dst here dst.current)
  | quiet (stays : ∀ t src dst here, ¬ s.Switches e t src dst here)
      (current : ∀ t, (s'.thread t).current = (s.thread t).current) (mem : s'.mem = s.mem) (made : s'.made = s.made)
  | compute (stays : ∀ t src dst here, ¬ s.Switches e t src dst here)
      (current : ∀ t, (s'.thread t).current = (s.thread t).current) (regs : Register → Word) (rip : Word)
      (event : e.2 = .compute regs rip s'.mem) (made : s'.made = s.made)
  | make (stays : ∀ t src dst here, ¬ s.Switches e t src dst here)
      (current : ∀ t, (s'.thread t).current = (s.thread t).current) (r : ρ) (f1 arg : Word) (now : Nat)
      (event : e.2 = .make r f1 arg now)
      (mem : s'.mem = makeContext s.mem (L.stack (.routine r)) (L.sp (.routine r)) f1 arg)
      (made : s'.made = Function.update s.made r true)

omit [DecidableEq ρ] in
theorem current_setThread {t : τ} {thread : Thread ρ} (same : thread.current = (s.thread t).current) (u : τ) :
    ((s.setThread t thread).thread u).current = (s.thread u).current := by
  simp only [State.setThread]
  by_cases own : u = t
  · subst own
    rw [Function.update_self, same]
  · rw [Function.update_of_ne own]

theorem step_effect (enabled : step L s e = some s') : Effect L s e s' := by
  obtain ⟨t, event⟩ := e
  cases event with
  | compute regs rip mem =>
    cases enabled
    exact .compute (fun _ _ _ _ switches => by cases switches) (current_setThread rfl) regs rip rfl rfl
  | make r f1 arg now =>
    cases enabled
    exact .make (fun _ _ _ _ switches => by cases switches) (fun _ => rfl) r f1 arg now rfl rfl rfl
  | acquire r =>
    simp only [step, Option.ite_none_right_eq_some, Option.some.injEq] at enabled
    obtain ⟨-, rfl⟩ := enabled
    refine .quiet (fun _ _ _ _ switches => by cases switches) (fun u => ?_) ?_ ?_
    · split
      · exact current_setThread (s := s.setRoutine r _) (by rfl) u
      · rfl
    · split <;> rfl
    · split <;> rfl
  | release r =>
    simp only [step, Option.ite_none_right_eq_some, Option.some.injEq] at enabled
    obtain ⟨-, rfl⟩ := enabled
    exact .quiet (fun _ _ _ _ switches => by cases switches) (current_setThread rfl) rfl rfl
  | updateState r now =>
    simp only [step, Option.ite_none_right_eq_some, Option.some.injEq] at enabled
    obtain ⟨-, rfl⟩ := enabled
    exact .quiet (fun _ _ _ _ switches => by cases switches) (fun _ => rfl) rfl rfl
  | setUpdateFlag r =>
    cases enabled
    exact .quiet (fun _ _ _ _ switches => by cases switches) (fun _ => rfl) rfl rfl
  | stop r =>
    cases enabled
    exact .quiet (fun _ _ _ _ switches => by cases switches) (fun _ => rfl) rfl rfl
  | setState state =>
    simp only [step] at enabled
    split at enabled
    · cases enabled
      exact .quiet (fun _ _ _ _ switches => by cases switches) (fun _ => rfl) rfl rfl
    · cases enabled
  | resume r here =>
    simp only [step, Option.ite_none_right_eq_some, Option.some.injEq] at enabled
    obtain ⟨⟨acquired, idle⟩, rfl⟩ := enabled
    split
    · rename_i ready
      exact .switch t _ _ here (.resume acquired idle ready) (s.setRoutine r (s.routines r).resume.2) rfl rfl rfl rfl
    · rename_i refused
      refine .quiet ?_ (fun _ => rfl) rfl rfl
      rintro _ _ _ _ (⟨_, _, ready⟩ | _)
      exact refused ready
  | yield state here =>
    simp only [step] at enabled
    split at enabled
    · rename_i r running
      cases enabled
      exact .switch t _ _ here (.yield running) (s.setRoutine r (state.elim (s.routines r) (s.routines r).setState))
        rfl rfl rfl rfl
    · cases enabled

omit [DecidableEq τ] [DecidableEq ρ] in
/-- A step that changes no lock and lets a thread run only what it acquired. -/
theorem Locks.of_same (locks : Locks s) (lock : ∀ r, (s'.routines r).lock = (s.routines r).lock)
    (acquired : ∀ t, (s'.thread t).acquired = (s.thread t).acquired)
    (current : ∀ t r, (s'.thread t).current = some r → (s.thread t).current = some r ∨ (s.thread t).acquired r = true)
    (made : ∀ r, s.made r = true → s'.made r = true) : Locks s' where
  runs t r runs := by
    rw [acquired]
    exact (current t r runs).elim (locks.runs t r) id
  locked t r has := by
    rw [acquired] at has
    rw [lock, locks.locked t r has]
  once t u r has has' := by
    rw [acquired] at has has'
    exact locks.once t u r has has'
  made t r has := by
    rw [acquired] at has
    exact made r (locks.made t r has)

omit [DecidableEq τ] in
theorem lock_setRoutine {r : ρ} {routine : CRoutine} (same : routine.lock = (s.routines r).lock) (r' : ρ) :
    ((s.setRoutine r routine).routines r').lock = (s.routines r').lock := by
  simp only [State.setRoutine]
  by_cases own : r' = r
  · subst own
    rw [Function.update_self, same]
  · rw [Function.update_of_ne own]

omit [DecidableEq τ] [DecidableEq ρ] in
theorem Locks.acquires {t : τ} {r : ρ} (locks : Locks s) (free : (s.routines r).lock = false) (ready : s.made r = true)
    (acquired : ∀ u r', (s'.thread u).acquired r' = true ↔ (s.thread u).acquired r' = true ∨ u = t ∧ r' = r)
    (taken : (s'.routines r).lock = true) (lock : ∀ r', r' ≠ r → (s'.routines r').lock = (s.routines r').lock)
    (current : ∀ u, (s'.thread u).current = (s.thread u).current) (made : s'.made = s.made) : Locks s' := by
  have nobody : ∀ u, (s.thread u).acquired r ≠ true := fun u has => by
    rw [locks.locked u r has] at free
    cases free
  refine ⟨fun u r' runs => ?_, fun u r' has => ?_, fun u v r' has has' => ?_, fun u r' has => ?_⟩
  · rw [current] at runs
    exact (acquired u r').mpr (.inl (locks.runs u r' runs))
  · by_cases same : r' = r
    · rw [same, taken]
    · rw [lock r' same]
      exact locks.locked u r' (((acquired u r').mp has).resolve_right fun new => same new.2)
  · rcases (acquired u r').mp has, (acquired v r').mp has' with ⟨old | new, old' | new'⟩
    · exact locks.once u v r' old old'
    · exact absurd (new'.2 ▸ old) (nobody u)
    · exact absurd (new.2 ▸ old') (nobody v)
    · rw [new.1, new'.1]
  · rw [made]
    rcases (acquired u r').mp has with old | new
    · exact locks.made u r' old
    · rw [new.2, ready]

omit [DecidableEq τ] [DecidableEq ρ] in
theorem Locks.releases {t : τ} {r : ρ} (locks : Locks s) (has : (s.thread t).acquired r = true)
    (notRunning : (s.thread t).current ≠ some r)
    (acquired : ∀ u r', (s'.thread u).acquired r' = true ↔ (s.thread u).acquired r' = true ∧ ¬ (u = t ∧ r' = r))
    (lock : ∀ r', r' ≠ r → (s'.routines r').lock = (s.routines r').lock)
    (current : ∀ u, (s'.thread u).current = (s.thread u).current) (made : s'.made = s.made) : Locks s' := by
  refine ⟨fun u r' runs => ?_, fun u r' has' => ?_, fun u v r' has' has'' => ?_, fun u r' has' => ?_⟩
  · rw [current] at runs
    refine (acquired u r').mpr ⟨locks.runs u r' runs, ?_⟩
    rintro ⟨rfl, rfl⟩
    exact notRunning runs
  · obtain ⟨old, kept⟩ := (acquired u r').mp has'
    rw [lock r' fun same => kept ⟨locks.once u t r (same ▸ old) has, same⟩]
    exact locks.locked u r' old
  · exact locks.once u v r' ((acquired u r').mp has').1 ((acquired v r').mp has'').1
  · rw [made]
    exact locks.made u r' ((acquired u r').mp has').1

omit [DecidableEq ρ] in
theorem acquired_setThread {t : τ} {thread : Thread ρ} (u : τ) (r : ρ) :
    ((s.setThread t thread).thread u).acquired r = if u = t then thread.acquired r else (s.thread u).acquired r := by
  simp only [State.setThread]
  by_cases own : u = t
  · subst own
    rw [Function.update_self, if_pos rfl]
  · rw [Function.update_of_ne own, if_neg own]

theorem acquire_free {cr : CRoutine} (free : cr.acquire.1 = true) : cr.lock = false := by
  simpa [CRoutine.acquire] using free

theorem acquire_taken {cr : CRoutine} (refused : ¬ cr.acquire.1 = true) : cr.lock = true := by
  simpa [CRoutine.acquire] using refused

theorem step_locks (locks : Locks s) (allowed : s.Allowed L e) (enabled : step L s e = some s') : Locks s' := by
  obtain ⟨t, event⟩ := e
  cases event with
  | compute regs rip mem =>
    cases enabled
    refine locks.of_same (fun _ => rfl) (fun u => ?_) (fun u r runs => .inl ?_) fun _ made => made
    · funext r
      refine (acquired_setThread u r).trans ?_
      split
      · rename_i own
        rw [own]
      · rfl
    · have same : ((s.setThread t { s.thread t with regs := regs, rip := rip }).thread u).current = some r := runs
      rwa [current_setThread (by rfl)] at same
  | make r f1 arg now =>
    cases enabled
    have others : ∀ u r', (s.thread u).acquired r' = true → r' ≠ r := by
      rintro u r' has rfl
      have none := allowed.2.1 r' f1 arg now rfl u
      rw [has] at none
      cases none
    refine ⟨locks.runs, fun u r' has => ?_, locks.once, fun u r' has => ?_⟩
    · simp only [State.setRoutine, Function.update_of_ne (others u r' has)]
      exact locks.locked u r' has
    · simp only [Function.update_of_ne (others u r' has)]
      exact locks.made u r' has
  | acquire r =>
    simp only [step, Option.ite_none_right_eq_some, Option.some.injEq] at enabled
    obtain ⟨made, rfl⟩ := enabled
    split
    · rename_i free
      refine locks.acquires (t := t) (acquire_free free) made (fun u r' => ?_) ?_ (fun r' other => ?_) (fun u => ?_) rfl
      · rw [acquired_setThread]
        simp only [State.setRoutine]
        by_cases own : u = t
        · by_cases same : r' = r
          · simp [own, same]
          · simp [own, same]
        · simp [own]
      · simp only [State.setThread, State.setRoutine, Function.update_self]
        rfl
      · simp only [State.setThread, State.setRoutine, Function.update_of_ne other]
      · exact current_setThread (s := s.setRoutine r _) (by rfl) u
    · rename_i refused
      exact locks.of_same (lock_setRoutine (acquire_taken refused).symm) (fun _ => rfl) (fun _ _ runs => .inl runs)
        fun _ made => made
  | release r =>
    simp only [step, Option.ite_none_right_eq_some, Option.some.injEq] at enabled
    obtain ⟨⟨has, notRunning⟩, rfl⟩ := enabled
    refine locks.releases has notRunning (fun u r' => ?_) (fun r' other => ?_) (fun u => ?_) rfl
    · rw [acquired_setThread]
      simp only [State.setRoutine]
      by_cases own : u = t
      · by_cases same : r' = r
        · simp [own, same]
        · simp [own, same]
      · simp [own]
    · simp only [State.setThread, State.setRoutine, Function.update_of_ne other]
    · exact current_setThread (s := s.setRoutine r _) (by rfl) u
  | updateState r now =>
    simp only [step, Option.ite_none_right_eq_some, Option.some.injEq] at enabled
    obtain ⟨-, rfl⟩ := enabled
    exact locks.of_same (lock_setRoutine (updateState_lock _ now)) (fun _ => rfl) (fun _ _ runs => .inl runs)
      fun _ made => made
  | setUpdateFlag r =>
    cases enabled
    exact locks.of_same (lock_setRoutine rfl) (fun _ => rfl) (fun _ _ runs => .inl runs) fun _ made => made
  | stop r =>
    cases enabled
    exact locks.of_same (lock_setRoutine rfl) (fun _ => rfl) (fun _ _ runs => .inl runs) fun _ made => made
  | setState state =>
    simp only [step] at enabled
    split at enabled
    · cases enabled
      exact locks.of_same (lock_setRoutine rfl) (fun _ => rfl) (fun _ _ runs => .inl runs) fun _ made => made
    · cases enabled
  | resume r here =>
    simp only [step, Option.ite_none_right_eq_some, Option.some.injEq] at enabled
    obtain ⟨⟨has, idle⟩, rfl⟩ := enabled
    split
    · refine locks.of_same (fun r' => ?_) (fun u => ?_) (fun u r' runs => ?_) fun _ made => made
      · exact lock_setRoutine (resume_lock _) r'
      · rw [State.swap_thread]
        by_cases own : u = t
        · subst own
          rw [Function.update_self]
          rfl
        · rw [Function.update_of_ne own]
          rfl
      · rw [State.swap_thread] at runs
        by_cases own : u = t
        · subst own
          rw [Function.update_self] at runs
          exact .inr (Option.some_inj.mp runs ▸ has)
        · rw [Function.update_of_ne own] at runs
          exact .inl runs
    · exact locks.of_same (lock_setRoutine (resume_lock _)) (fun _ => rfl) (fun _ _ runs => .inl runs)
        fun _ made => made
  | yield state here =>
    simp only [step] at enabled
    split at enabled
    · rename_i r running
      cases enabled
      refine locks.of_same (fun r' => ?_) (fun u => ?_) (fun u r' runs => ?_) fun _ made => made
      · refine lock_setRoutine ?_ r'
        cases state <;> rfl
      · rw [State.swap_thread]
        by_cases own : u = t
        · subst own
          rw [Function.update_self]
          rfl
        · rw [Function.update_of_ne own]
          rfl
      · rw [State.swap_thread] at runs
        by_cases own : u = t
        · subst own
          rw [Function.update_self] at runs
          cases runs
        · rw [Function.update_of_ne own] at runs
          exact .inl runs
    · cases enabled

namespace State

omit [DecidableEq ρ] in
/-- A swap changes no more of the memory than the word for the stack pointer of the context that is left and what is
pushed, and finds in the context that is entered what was stored for it. -/
theorem Switches.spec {t : τ} {src dst : Context τ ρ} {here : Word} (different : src ≠ dst) {s : State τ ρ}
    (room : Room L src ((s.thread t).regs .rsp)) (there : Room L dst (load s.mem (L.sp dst) + 64)) {kept : List Word}
    {rsp returnAddress : Word} (length : kept.length = 7) (suspended : Suspended s.mem (L.sp dst) kept rsp returnAddress)
    {current : Option ρ} (swapped : s' = s.swap L t src dst here current) :
    Suspended s'.mem (L.sp src) (keptRegisters.map ((s.cpu t).set .rdi (L.sp src)).regs) ((s.thread t).regs .rsp) here ∧
      keptRegisters.map (s'.thread t).regs = kept ∧ (s'.thread t).regs .rsp = rsp ∧
      (s'.thread t).rip = returnAddress ∧
      ∀ x, ¬ Within ((s.thread t).regs .rsp - 64) 64 x → ¬ Within (L.sp src) 8 x → s'.mem x = s.mem x := by
  have top : rsp = load s.mem (L.sp dst) + 64 := by rw [suspended.stored, BitVec.sub_add_cancel]
  have apart := L.apart dst src different.symm
  have inside : ∀ x, Within ((s.cpu t).regs .rsp - 64) 64 x → Within (L.stack src) (L.size src) x :=
    fun x => room.within
  have inside' : ∀ x, Within (rsp - 64) 64 x → Within (L.stack dst) (L.size dst) x := by
    rw [top]
    exact fun x => there.within
  have spec := swapContext_spec (s.cpu t) here length suspended
    (fun x within => L.stack_not_sp src src x (inside x within)) apart.1
    (fun x within within' => apart.2.1 x within (inside x within'))
    (fun x within => L.stack_not_sp dst src x (inside' x within))
    fun x within within' => apart.2.2 x (inside' x within) (inside x within')
  rw [swapped, swap_mem, swap_thread, Function.update_self]
  exact spec

end State

/-- Besides, the stack pointers that are stored point into the stacks. -/
structure Inv (L : Layout τ ρ) (s : State τ ρ) : Prop extends Locks s where
  room : ∀ c, s.Parked c → State.Room L c (load s.mem (L.sp c) + 64)

omit [DecidableEq τ] [DecidableEq ρ] in
/-- Who enters a context finds it parked, and leaves a different one. -/
theorem Locks.enters {t : τ} {src dst : Context τ ρ} {here : Word} (locks : Locks s)
    (switches : s.Switches e t src dst here) : s.Parked dst ∧ ¬ s.Parked src ∧ src ≠ dst := by
  cases switches with
  | resume acquired idle ready =>
    rename_i r
    refine ⟨⟨locks.made t r acquired, fun u runs => ?_⟩, fun parked => parked idle, by rintro ⟨⟩⟩
    rw [locks.once u t r (locks.runs u r runs) acquired, idle] at runs
    cases runs
  | yield running =>
    refine ⟨fun idle => ?_, fun parked => parked.2 t running, by rintro ⟨⟩⟩
    rw [running] at idle
    cases idle

omit [DecidableEq ρ] in
/-- The contexts that do not run after a thread has switched from one to another. -/
theorem Locks.parked_swap {t : τ} {src dst : Context τ ρ} {here : Word} (locks : Locks s)
    (switches : s.Switches e t src dst here) {s₁ : State τ ρ} (thread : s₁.thread = s.thread) (made : s₁.made = s.made)
    (swapped : s' = s₁.swap L t src dst here dst.current) (c : Context τ ρ) :
    s'.Parked c ↔ c = src ∨ s.Parked c ∧ c ≠ dst := by
  have current : ∀ u, (s'.thread u).current = if u = t then dst.current else (s.thread u).current := by
    intro u
    rw [swapped, State.swap_thread, thread]
    by_cases own : u = t
    · rw [own, Function.update_self, if_pos rfl]
    · rw [Function.update_of_ne own, if_neg own]
  have same : s'.made = s.made := by rw [swapped, ← made]; rfl
  have other : ∀ r, dst.current ≠ some r → (s.thread t).current ≠ some r →
      (s'.Parked (.routine r) ↔ s.Parked (.routine r)) := by
    intro r notEntered notLeft
    simp only [State.Parked, same, current]
    refine and_congr_right fun _ => forall_congr' fun u => ?_
    by_cases own : u = t
    · rw [if_pos own, own]
      exact iff_of_true notEntered notLeft
    · rw [if_neg own]
  cases switches with
  | resume acquired idle ready =>
    rename_i r
    cases c with
    | main u =>
      simp only [State.Parked, current]
      by_cases own : u = t
      · simp [own, Context.current]
      · simp [own]
    | routine r' =>
      by_cases entered : r' = r
      · subst entered
        have runs : ¬ s'.Parked (.routine r') := fun parked => parked.2 t (by rw [current, if_pos rfl]; rfl)
        simp [runs]
      · rw [other r' (fun same => entered (Option.some_inj.mp same).symm) (by rw [idle]; exact nofun)]
        simp [entered]
  | yield running =>
    rename_i r state
    cases c with
    | main u =>
      simp only [State.Parked, current]
      by_cases own : u = t
      · simp [own, Context.current]
      · simp [own]
    | routine r' =>
      by_cases left : r' = r
      · subst left
        have parked : s'.Parked (.routine r') := by
          refine ⟨?_, fun u runs => ?_⟩
          · rw [same]
            exact locks.made t r' (locks.runs t r' running)
          · rw [current] at runs
            split at runs
            · cases runs
            · rename_i other
              exact other (locks.once u t r' (locks.runs u r' runs) (locks.runs t r' running))
        simp [parked]
      · rw [other r' nofun (by rw [running]; exact fun same => left (Option.some_inj.mp same).symm)]
        simp [left]

omit [DecidableEq τ] [DecidableEq ρ] in
theorem State.Switches.unique {t t' : τ} {src src' dst dst' : Context τ ρ} {here here' : Word}
    (switches : s.Switches e t src dst here) (switches' : s.Switches e t' src' dst' here') :
    t = t' ∧ src = src' ∧ dst = dst' ∧ here = here' := by
  cases switches with
  | resume => cases switches' with | resume => exact ⟨rfl, rfl, rfl, rfl⟩
  | yield running =>
    cases switches' with
    | yield running' =>
      rw [running] at running'
      cases running'
      exact ⟨rfl, rfl, rfl, rfl⟩

/-- The step in which a thread goes from one context to another. -/
theorem step_switch {t : τ} {src dst : Context τ ρ} {here : Word} (switches : s.Switches e t src dst here)
    (enabled : step L s e = some s') : ∃ s₁ : State τ ρ, s₁.thread = s.thread ∧ s₁.mem = s.mem ∧ s₁.made = s.made ∧
      s' = s₁.swap L t src dst here dst.current := by
  cases step_effect enabled with
  | quiet stays => exact (stays _ _ _ _ switches).elim
  | compute stays => exact (stays _ _ _ _ switches).elim
  | make stays => exact (stays _ _ _ _ switches).elim
  | switch t' src' dst' here' switches' s₁ thread mem made swapped =>
    obtain ⟨rfl, rfl, rfl, rfl⟩ := switches.unique switches'
    exact ⟨s₁, thread, mem, made, swapped⟩

/-- The context that is left is suspended where it called `ctx_swap`, and the other goes on where it was. -/
theorem step_swaps (inv : Inv L s) (allowed : s.Allowed L e) (enabled : step L s e = some s') {t : τ}
    {src dst : Context τ ρ} {here : Word} (switches : s.Switches e t src dst here) {kept : List Word}
    {rsp returnAddress : Word} (length : kept.length = 7) (suspended : Suspended s.mem (L.sp dst) kept rsp returnAddress) :
    Suspended s'.mem (L.sp src) (keptRegisters.map (Function.update (s.thread t).regs .rdi (L.sp src)))
        ((s.thread t).regs .rsp) here ∧
      keptRegisters.map (s'.thread t).regs = kept ∧ (s'.thread t).regs .rsp = rsp ∧
      (s'.thread t).rip = returnAddress ∧
      ∀ x, ¬ Within ((s.thread t).regs .rsp - 64) 64 x → ¬ Within (L.sp src) 8 x → s'.mem x = s.mem x := by
  obtain ⟨s₁, thread, mem, made, swapped⟩ := step_switch switches enabled
  obtain ⟨there, -, different⟩ := inv.enters switches
  have room := allowed.2.2 t src dst here switches
  rw [← thread] at room
  have spec := State.Switches.spec different room (mem ▸ inv.room dst there) length (mem ▸ suspended) swapped
  rw [mem, thread] at spec
  have cpu : (s₁.cpu t).set .rdi (L.sp src) = (s.cpu t).set .rdi (L.sp src) := by
    simp only [State.cpu, thread, mem]
  rw [cpu] at spec
  exact spec

/-- A step enters a context, or makes it anew. -/
def Touches (s : State τ ρ) (e : τ × Event ρ) (c : Context τ ρ) : Prop :=
  (∃ t src here, s.Switches e t src c here) ∨ ∃ r f1 arg now, e.2 = .make r f1 arg now ∧ c = .routine r

/-- What belongs to a context that does not run stays as it is until the context is entered. -/
theorem step_keeps (inv : Inv L s) (allowed : s.Allowed L e) (enabled : step L s e = some s') {c : Context τ ρ}
    (parked : s.Parked c) (untouched : ¬ Touches s e c) :
    s'.Parked c ∧ ∀ x, s.Holds L c x → s'.mem x = s.mem x := by
  have same_parked : (∀ t, (s'.thread t).current = (s.thread t).current) → (∀ r, s.made r = true → s'.made r = true) →
      s'.Parked c := by
    intro current made
    cases c with
    | main t => exact fun idle => parked ((current t).symm.trans idle)
    | routine r => exact ⟨made r parked.1, fun t runs => parked.2 t ((current t).symm.trans runs)⟩
  cases step_effect enabled with
  | quiet stays current mem made => exact ⟨same_parked current fun r => by rw [made]; exact id, fun x _ => by rw [mem]⟩
  | compute stays current regs rip event made =>
    exact ⟨same_parked current fun r => by rw [made]; exact id, fun x => allowed.1 _ _ _ event c parked x⟩
  | make stays current r f1 arg now event mem made =>
    have other : c ≠ .routine r := fun same => untouched (.inr ⟨r, f1, arg, now, event, same⟩)
    refine ⟨same_parked current fun r' ready => ?_, fun x holds => ?_⟩
    · rw [made]
      by_cases own : r' = r
      · rw [own, Function.update_self]
      · rw [Function.update_of_ne own, ready]
    · have apart := L.apart c (.routine r) other
      have apart' := L.apart (.routine r) c other.symm
      rw [mem]
      refine makeContext_outside ?_ ?_
      · exact (holds.owned (inv.room c parked)).elim (apart.1 x) fun inside => L.stack_not_sp c (.routine r) x inside
      · rw [← L.routine_size r]
        exact (holds.owned (inv.room c parked)).elim (apart.2.1 x) (apart.2.2 x)
  | switch t src dst here switches s₁ thread mem made swapped =>
    obtain ⟨there, running, different⟩ := inv.enters switches
    have notSrc : c ≠ src := fun same => running (same ▸ parked)
    have notDst : c ≠ dst := fun same => untouched (.inl ⟨t, src, here, same ▸ switches⟩)
    refine ⟨(inv.parked_swap switches thread made swapped c).mpr (.inr ⟨parked, notDst⟩), fun x holds => ?_⟩
    have room := allowed.2.2 t src dst here switches
    obtain ⟨kept, returnAddress, length, suspended⟩ := exists_suspended s.mem (L.sp dst)
    have spec := step_swaps inv allowed enabled switches length suspended
    have apart := L.apart c src notSrc
    refine spec.2.2.2.2 x (fun pushed => ?_) fun slot => ?_
    · exact (holds.owned (inv.room c parked)).elim (fun own => apart.2.1 x own (room.within pushed))
        fun own => apart.2.2 x own (room.within pushed)
    · exact (holds.owned (inv.room c parked)).elim (fun own => apart.1 x own slot)
        fun own => L.stack_not_sp c src x own slot

/-- A coroutine that is made lies on its stack as if it had called `ctx_swap` right before its function. -/
theorem make_suspended {t : τ} {r : ρ} {f1 arg : Word} {now : Nat} (enabled : step L s (t, .make r f1 arg now) = some s') :
    Suspended s'.mem (L.sp (.routine r)) [0, 0, 0, 0, 0, 0, arg]
      (L.stack (.routine r) + BitVec.ofNat 64 (stackSize - 8)) f1 := by
  cases enabled
  refine makeContext_suspended s.mem f1 arg ?_
  rw [← L.routine_size r]
  exact L.own (.routine r)

theorem make_parked {t : τ} {r : ρ} {f1 arg : Word} {now : Nat} (locks : Locks s)
    (allowed : s.Allowed L (t, .make r f1 arg now)) (enabled : step L s (t, .make r f1 arg now) = some s') :
    s'.Parked (.routine r) := by
  cases enabled
  refine ⟨Function.update_self .., fun u runs => ?_⟩
  have none := allowed.2.1 r f1 arg now rfl u
  rw [locks.runs u r runs] at none
  cases none

omit [DecidableEq τ] [DecidableEq ρ] in
theorem State.Room.made (r : ρ) :
    State.Room L (.routine r) (L.stack (.routine r) + BitVec.ofNat 64 (stackSize - 8)) := by
  have offset : (L.stack (.routine r) + BitVec.ofNat 64 (stackSize - 8) - L.stack (.routine r)).toNat = 2097144 := by
    change (L.stack (.routine r) + 2097144 - L.stack (.routine r)).toNat = 2097144
    bv_omega
  rw [State.Room, offset, L.routine_size]
  decide

theorem step_inv (inv : Inv L s) (allowed : s.Allowed L e) (enabled : step L s e = some s') : Inv L s' where
  toLocks := step_locks inv.toLocks allowed enabled
  room c parked := by
    by_cases makes : ∃ r f1 arg now, e.2 = .make r f1 arg now ∧ c = .routine r
    · obtain ⟨r, f1, arg, now, event, rfl⟩ := makes
      obtain ⟨t, _⟩ := e
      cases event
      rw [(make_suspended enabled).stored, BitVec.sub_add_cancel]
      exact State.Room.made r
    have old : s.Parked c → (∀ t src here, ¬ s.Switches e t src c here) →
        State.Room L c (load s'.mem (L.sp c) + 64) := by
      intro before stays
      have kept := step_keeps inv allowed enabled before
        (not_or.mpr ⟨fun ⟨t, src, here, switches⟩ => stays t src here switches, makes⟩)
      rw [load_congr fun x inside => kept.2 x (.inl inside)]
      exact inv.room c before
    have unchanged : (∀ t, (s'.thread t).current = (s.thread t).current) → (∀ r, c = .routine r → s'.made r = s.made r) →
        s.Parked c := by
      intro current made
      cases c with
      | main t => exact fun idle => parked ((current t).trans idle)
      | routine r => exact ⟨made r rfl ▸ parked.1, fun t runs => parked.2 t ((current t).trans runs)⟩
    cases step_effect enabled with
    | quiet stays current mem made =>
      exact old (unchanged current fun r _ => by rw [made]) fun t src here => stays t src c here
    | compute stays current regs rip event made =>
      exact old (unchanged current fun r _ => by rw [made]) fun t src here => stays t src c here
    | make stays current r f1 arg now event mem made =>
      refine old (unchanged current fun r' same => ?_) fun t src here => stays t src c here
      have other : r' ≠ r := fun own => makes ⟨r, f1, arg, now, event, own ▸ same⟩
      rw [made, Function.update_of_ne other]
    | switch t src dst here switches s₁ thread mem made swapped =>
      rcases (inv.parked_swap switches thread made swapped c).mp parked with rfl | ⟨before, notDst⟩
      · obtain ⟨kept, returnAddress, length, suspended⟩ := exists_suspended s.mem (L.sp dst)
        have spec := step_swaps inv allowed enabled switches length suspended
        rw [spec.1.stored, BitVec.sub_add_cancel]
        exact allowed.2.2 t c dst here switches
      · exact old before fun t' src' here' switches' => notDst (switches'.unique switches).2.2.1

end CyberRT.Contexts

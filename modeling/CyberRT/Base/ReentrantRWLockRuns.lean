import CyberRT.Base.ReentrantRWLockPhase

namespace CyberRT.ReentrantRWLock
open Concur
universe u

variable {τ : Type u} [DecidableEq τ]

/-- A thread inside a call can only go on with it. -/
theorem act_inside {writeFirst : Bool} {k : Lock τ} {l : Local τ} {c : Choice} {next : Lock τ × Local τ}
    (inside : l.pc ≠ .idle) (step : act writeFirst k l c = some next) :
    ∃ spurious, c = .go spurious ∧ go writeFirst k l spurious = some next := by
  cases c with
  | readLock | writeLock =>
    simp only [act] at step
    cases step
  | unlock =>
    simp only [act] at step
    split at step <;> contradiction
  | go spurious => exact ⟨spurious, rfl, step⟩

section Totals
variable [Fintype τ]

/-- The step that is about to be taken is in order: no `WriteUnlock` clears `write_thread_id_` after another
thread has recorded itself there and while it holds a write guard, and no guard takes `lock_num_` out of the
range of an `int32_t`. -/
def Orderly (s : State τ) (e : τ × Choice) : Prop :=
  ((s.thread e.1).pc = .writeClearOwner → ∀ u, u ≠ e.1 → (s.thread u).writes = 0) ∧
  ((s.thread e.1).pc = .readLock (.compareExchange s.shared.words.lockNum) → e.2 = .go false →
    s.shared.words.lockNum < 2 ^ 31 - 1) ∧
  ((s.thread e.1).pc = .writeFetchSub → -2 ^ 31 < s.shared.words.lockNum)

instance (s : State τ) (e : τ × Choice) : Decidable (Orderly s e) :=
  inferInstanceAs (Decidable (_ ∧ _ ∧ _))

/-- The thread that moves keeps the invariant, given what it does to the lock and to itself. -/
theorem Inv.next {s : State τ} (inv : Inv s) {t : τ} {k : Lock τ} {l : Local τ}
    (same : l.threadId = (s.thread t).threadId) (ok : l.Ok) (phase : Phase ⟨k, Function.update s.thread t l⟩)
    (range : -2 ^ 31 ≤ k.words.lockNum ∧ k.words.lockNum < 2 ^ 31)
    (owner : k.writeThreadId = some t → 0 < l.writes ∨ l.pc = .writeClearOwner)
    (others : ∀ u, u ≠ t → k.writeThreadId = some u → s.shared.writeThreadId = some u) :
    Inv ⟨k, Function.update s.thread t l⟩ where
  range := range
  ids := by
    refine (Function.forall_update_iff _ fun u (l : Local τ) => l.threadId = u).mpr ?_
    exact ⟨same.trans (inv.ids t), fun u _ => inv.ids u⟩
  threads := (Function.forall_update_iff _ fun _ (l : Local τ) => l.Ok).mpr ⟨ok, fun u _ => inv.threads u⟩
  phase := phase
  owner := by
    intro u recorded
    by_cases self : u = t
    · subst self
      simpa only [Function.update_self] using owner recorded
    · simpa only [Function.update_of_ne self] using inv.owner u (others u self recorded)

/-- A thread that is not about to clear finds its own id if and only if it holds a write guard. -/
theorem Inv.owner_iff {s : State τ} (inv : Inv s) {t : τ} (stays : (s.thread t).pc ≠ .writeClearOwner) :
    s.shared.writeThreadId = some (s.thread t).threadId ↔ 0 < (s.thread t).writes := by
  rw [inv.ids t]
  constructor
  · intro recorded
    exact (inv.owner t recorded).resolve_right stays
  · intro holds
    exact (inv.phase.owned_of holds).2.2.2.1

theorem step_readLoop {writeFirst : Bool} {s : State τ} (inv : Inv s) {t : τ} {spurious : Bool} {k : Lock τ}
    {l : Local τ} {loop : ReadLoop} (orderly : Orderly s (t, .go spurious)) (atPc : (s.thread t).pc = .readLock loop)
    (step : go writeFirst s.shared (s.thread t) spurious = some (k, l)) : Inv ⟨k, Function.update s.thread t l⟩ := by
  have sound := (inv.threads t).loops loop atPc
  have noClear : (s.thread t).pc ≠ .writeClearOwner := by simp [atPc]
  have unmoved : (s.thread t).acquiring = 0 := Local.acquiring_eq_zero.mpr (by simp [atPc])
  have owns := inv.owner_iff noClear
  rw [inv.ids t] at owns
  simp only [go, atPc] at step
  split at step
  · rename_i moved
    cases step
    obtain ⟨rfl, kept⟩ := ReadLoop.act_some sound moved
    refine inv.next rfl ⟨(inv.threads t).bottom, ?_, by simp, by simp, by simp⟩ ?_ inv.range ?_ fun _ _ => id
    · intro _ same
      cases same
      exact kept
    · exact inv.phase.quiet rfl unmoved.symm rfl rfl
    · exact fun recorded => .inl (owns.mp recorded)
  · rename_i locked
    cases step
    obtain ⟨free, rfl, atExchange, stored⟩ := ReadLoop.act_none sound locked
    have below := orderly.2.1 (atExchange ▸ atPc) (stored ▸ rfl)
    have value := int32_eq (x := s.shared.words.lockNum + 1) (by omega) (by omega)
    have noWrites : (s.thread t).writes = 0 := by
      by_contra holds
      have locked := (inv.phase.owned_of (Nat.pos_of_ne_zero holds)).2.2.2.2
      have own := Config.le_total Local.writes s.thread t
      unfold writers at locked
      omega
    have writes : Local.writes { s.thread t with pc := .idle, guards := .read :: (s.thread t).guards } = 0 := by
      simpa [Local.writes] using noWrites
    refine inv.next rfl (.of_plain trivial ?_) ?_ ?_ ?_ fun _ _ => id
    · exact fun holds => absurd writes (Nat.ne_of_gt holds)
    · refine inv.phase.reads (.inl free) (writes.trans noWrites.symm) unmoved.symm ?_
      simp only [LockWords.fetchAdd, value, Local.reads, List.count_cons_self]
      omega
    · simp only [LockWords.fetchAdd, value]
      omega
    · intro recorded
      have := owns.mp recorded
      omega

/-- A thread about to subtract its read guard finds it counted. -/
theorem Phase.counted {s : State τ} (phase : Phase s) {t : τ} (noWrites : (s.thread t).writes = 0)
    (some : 0 < (s.thread t).reads) : 1 ≤ s.shared.words.lockNum := by
  have own := Config.le_total Local.reads s.thread t
  cases phase with
  | free _ _ count =>
    unfold readers at count
    omega
  | acquired _ _ none =>
    unfold readers at none
    omega
  | owned h holds _ all =>
    have different : h ≠ t := by
      intro same
      rw [same] at holds
      omega
    have both := Config.add_le_total Local.reads s.thread different
    unfold readers at all
    omega

theorem step_readFetchSub {writeFirst : Bool} {s : State τ} (inv : Inv s) {t : τ} {spurious : Bool} {k : Lock τ}
    {l : Local τ} (atPc : (s.thread t).pc = .readFetchSub)
    (step : go writeFirst s.shared (s.thread t) spurious = some (k, l)) : Inv ⟨k, Function.update s.thread t l⟩ := by
  obtain ⟨noWrites, first⟩ := (inv.threads t).readUnlocks atPc
  obtain ⟨rest, guards⟩ : ∃ rest, (s.thread t).guards = .read :: rest := List.head?_eq_some_iff.mp first
  have reads : (s.thread t).reads = rest.count .read + 1 := by simp [Local.reads, guards]
  have writes : (s.thread t).writes = rest.count .write := by simp [Local.writes, guards]
  have unmoved : (s.thread t).acquiring = 0 := Local.acquiring_eq_zero.mpr (by simp [atPc])
  have owns := inv.owner_iff (t := t) (by simp [atPc])
  rw [inv.ids t] at owns
  have range := inv.range
  have counted := inv.phase.counted noWrites (by omega)
  have value := int32_eq (x := s.shared.words.lockNum + -1) (by omega) (by omega)
  simp only [go, atPc, guards, List.tail_cons] at step
  cases step
  refine inv.next rfl (.of_plain trivial ?_) ?_ ?_ ?_ fun _ _ => id
  · exact fun holds => absurd (writes.symm.trans noWrites) (Nat.ne_of_gt holds)
  · refine inv.phase.reads (.inr ⟨noWrites, by omega⟩) writes.symm unmoved.symm ?_
    simp only [LockWords.fetchAdd, value, reads]
    simp only [Local.reads]
    omega
  · simp only [LockWords.fetchAdd, value]
    omega
  · intro recorded
    have := owns.mp recorded
    omega

theorem step_writeFetchSub {writeFirst : Bool} {s : State τ} (inv : Inv s) {t : τ} {spurious : Bool} {k : Lock τ}
    {l : Local τ} (orderly : Orderly s (t, .go spurious)) (atPc : (s.thread t).pc = .writeFetchSub)
    (step : go writeFirst s.shared (s.thread t) spurious = some (k, l)) : Inv ⟨k, Function.update s.thread t l⟩ := by
  have holds := (inv.threads t).nests atPc
  have range := inv.range
  have above := orderly.2.2 atPc
  have value := int32_eq (x := s.shared.words.lockNum + -1) (by omega) (by omega)
  have writes : Local.writes { s.thread t with pc := .idle, guards := .write :: (s.thread t).guards } =
      (s.thread t).writes + 1 := List.count_cons_self
  simp only [go, atPc] at step
  cases step
  refine inv.next rfl (.of_plain trivial ?_) ?_ ?_ ?_ fun _ _ => id
  · exact fun _ => (getLast?_cons_write holds).trans ((inv.threads t).bottom holds)
  · refine inv.phase.nested holds (writes ▸ Nat.succ_pos _) rfl rfl ?_
    simp only [LockWords.fetchAdd, value, writes]
    omega
  · simp only [LockWords.fetchAdd, value]
    omega
  · exact fun _ => .inl (writes ▸ Nat.succ_pos _)

/-- A step that changes neither the lock number, nor the id, nor the guards of the thread. -/
theorem Inv.quiet {s : State τ} (inv : Inv s) {t : τ} {words : LockWords} {pc : Pc}
    (stays : (s.thread t).pc ≠ .writeClearOwner) (unmoved : (s.thread t).pc ≠ .writeSetOwner)
    (count : words.lockNum = s.shared.words.lockNum) (moves : pc ≠ .writeSetOwner)
    (ok : Local.Ok { s.thread t with pc := pc }) :
    Inv ⟨{ s.shared with words := words }, Function.update s.thread t { s.thread t with pc := pc }⟩ := by
  refine inv.next rfl ok ?_ (count ▸ inv.range) ?_ fun _ _ => id
  · refine inv.phase.quiet rfl ?_ rfl count
    rw [Local.acquiring_eq_zero.mpr moves, Local.acquiring_eq_zero.mpr unmoved]
  · intro recorded
    exact .inl ((inv.owner_iff stays).mp (by rw [inv.ids t]; exact recorded))

theorem step_go {writeFirst : Bool} {s : State τ} (inv : Inv s) {t : τ} {spurious : Bool} {k : Lock τ} {l : Local τ}
    (orderly : Orderly s (t, .go spurious)) (step : go writeFirst s.shared (s.thread t) spurious = some (k, l)) :
    Inv ⟨k, Function.update s.thread t l⟩ := by
  have ok := inv.threads t
  cases atPc : (s.thread t).pc with
  | idle =>
    simp only [go, atPc] at step
    cases step
  | readLock loop => exact step_readLoop inv orderly atPc step
  | readFetchSub => exact step_readFetchSub inv atPc step
  | writeFetchSub => exact step_writeFetchSub inv orderly atPc step
  | writeWaitNumAdd =>
    simp only [go, atPc] at step
    cases step
    have stays : (s.thread t).pc ≠ .writeClearOwner := by simp [atPc]
    have unmoved : (s.thread t).pc ≠ .writeSetOwner := by simp [atPc]
    exact inv.quiet stays unmoved rfl (by simp) (.of_plain trivial ok.bottom)
  | writeCompareExchange =>
    have unmoved : (s.thread t).acquiring = 0 := Local.acquiring_eq_zero.mpr (by simp [atPc])
    simp only [go, atPc, LockWords.compareExchangeWeak] at step
    split at step
    · rename_i stored
      split at stored
      · rename_i same
        cases stored
        cases step
        refine inv.next rfl (.of_plain trivial ok.bottom) ?_ ?_ ?_ fun _ _ => id
        · exact inv.phase.exchange same.1 rfl unmoved rfl rfl
        · simp only [LockWords.writeExclusive]
          omega
        · intro recorded
          exact .inl ((inv.owner_iff (by simp [atPc])).mp (by rw [inv.ids t]; exact recorded))
      · cases stored
    · cases step
      rwa [Function.update_eq_self]
  | writeSetOwner =>
    have acquires : (s.thread t).acquiring = 1 := by rw [Local.acquiring, if_pos atPc]
    obtain ⟨noWrites, -, noReads, -⟩ := inv.phase.acquired_of acquires
    have none : (s.thread t).guards = [] :=
      Local.guards_eq_nil.mpr ⟨Config.total_eq_zero.mp noReads t, Config.total_eq_zero.mp noWrites t⟩
    simp only [go, atPc, none] at step
    cases step
    refine inv.next rfl (.of_plain trivial fun _ => rfl) ?_ inv.range ?_ ?_
    · exact inv.phase.record acquires rfl rfl (congrArg some (inv.ids t)) rfl
    · exact fun _ => .inl Nat.one_pos
    · intro u different recorded
      exact absurd ((inv.ids t).symm.trans (Option.some.inj recorded)) (Ne.symm different)
  | writeWaitNumSub =>
    simp only [go, atPc] at step
    cases step
    have stays : (s.thread t).pc ≠ .writeClearOwner := by simp [atPc]
    have unmoved : (s.thread t).pc ≠ .writeSetOwner := by simp [atPc]
    exact inv.quiet stays unmoved rfl (by simp) (.of_plain trivial ok.bottom)
  | writeClearOwner =>
    have unmoved : (s.thread t).acquiring = 0 := Local.acquiring_eq_zero.mpr (by simp [atPc])
    have noWrites : ∀ u, (s.thread u).writes = 0 := by
      intro u
      by_cases same : u = t
      · rw [same]
        exact (Local.guards_eq_nil.mp (ok.cleared atPc)).2
      · exact orderly.1 atPc u same
    simp only [go, atPc] at step
    cases step
    refine inv.next rfl (.of_plain trivial ok.bottom) ?_ inv.range (by simp) (by simp)
    exact (inv.phase.unowned noWrites (k := { s.shared with writeThreadId := none }) rfl).quiet rfl unmoved.symm rfl rfl

theorem step_unlock {writeFirst : Bool} {s : State τ} (inv : Inv s) {t : τ} {k : Lock τ} {l : Local τ}
    (step : act writeFirst s.shared (s.thread t) .unlock = some (k, l)) : Inv ⟨k, Function.update s.thread t l⟩ := by
  have ok := inv.threads t
  have range := inv.range
  simp only [act] at step
  split at step
  · rename_i guards atPc same
    have stays : (s.thread t).pc ≠ .writeClearOwner := by simp [atPc]
    have unmoved : (s.thread t).pc ≠ .writeSetOwner := by simp [atPc]
    have writes : (s.thread t).writes = guards.count .write := by simp [Local.writes, same]
    split at step
    · rename_i recorded
      have holds := (inv.owner_iff stays).mp recorded
      have kept : 0 < guards.count .write := writes ▸ holds
      cases step
      refine inv.next rfl (.of_plain (atPc ▸ trivial) ?_) ?_ inv.range (fun _ => .inl kept) fun _ _ => id
      · intro _
        rw [← ok.bottom holds, same, getLast?_cons_write kept]
      · refine inv.phase.nested holds kept (Local.acquiring_eq_zero.mpr unmoved) rfl ?_
        rw [writes]
        simp only [Local.writes]
        omega
    · rename_i other
      have noWrites : (s.thread t).writes = 0 := by
        by_contra holds
        exact other ((inv.owner_iff stays).mpr (Nat.pos_of_ne_zero holds))
      cases step
      refine inv.quiet stays unmoved rfl (by simp) ⟨ok.bottom, by simp, ?_, by simp, by simp⟩
      exact fun _ => ⟨noWrites, by rw [same]; rfl⟩
  · rename_i guards atPc same
    have writes : (s.thread t).writes = guards.count .write + 1 := by simp [Local.writes, same]
    obtain ⟨all, -, -, recorded, locked⟩ := inv.phase.owned_of (t := t) (by omega)
    have value := int32_eq (x := s.shared.words.lockNum + 1) (by omega) (by omega)
    have rangeAfter : -2 ^ 31 ≤ (s.shared.words.fetchAdd 1).lockNum ∧ (s.shared.words.fetchAdd 1).lockNum < 2 ^ 31 := by
      simp only [LockWords.fetchAdd, value]
      omega
    cases step
    split
    · rename_i last
      have none : guards = [] := by
        have bottom := ok.bottom (by omega)
        rw [same] at bottom
        by_contra some
        obtain ⟨first, rest, shape⟩ := List.exists_cons_of_ne_nil some
        rw [shape, List.getLast?_cons_cons, ← shape] at bottom
        have positive := List.count_pos_iff.mpr (List.mem_of_getLast? bottom)
        unfold LockWords.writeExclusive at last
        omega
      subst none
      have ok : Local.Ok { s.thread t with pc := .writeClearOwner, guards := [] } :=
        ⟨by simp [Local.writes], by simp, by simp, by simp, fun _ => rfl⟩
      refine inv.next rfl ok ?_ rangeAfter (fun _ => .inr rfl) fun _ _ => id
      exact inv.phase.release writes rfl rfl (by simp only [LockWords.fetchAdd, value])
    · rename_i more
      have kept : 0 < guards.count .write := by
        unfold LockWords.writeExclusive at more
        omega
      refine inv.next rfl (.of_plain trivial ?_) ?_ rangeAfter (fun _ => .inl kept) fun _ _ => id
      · intro _
        rw [← ok.bottom (by omega), same, getLast?_cons_write kept]
      · refine inv.phase.nested (by omega) kept rfl rfl ?_
        simp only [LockWords.fetchAdd, value, writes]
        simp only [Local.writes]
        omega
  · cases step

theorem step_act {writeFirst : Bool} {s : State τ} (inv : Inv s) {t : τ} {c : Choice} {k : Lock τ} {l : Local τ}
    (orderly : Orderly s (t, c)) (step : act writeFirst s.shared (s.thread t) c = some (k, l)) :
    Inv ⟨k, Function.update s.thread t l⟩ := by
  have ok := inv.threads t
  cases c with
  | readLock =>
    simp only [act] at step
    split at step
    · rename_i atPc
      have stays : (s.thread t).pc ≠ .writeClearOwner := by simp [atPc]
      have unmoved : (s.thread t).pc ≠ .writeSetOwner := by simp [atPc]
      split at step
      · rename_i recorded
        have holds := (inv.owner_iff stays).mp recorded
        have writes : Local.writes ⟨(s.thread t).threadId, (s.thread t).pc, .read :: (s.thread t).guards⟩ =
            (s.thread t).writes := by simp [Local.writes]
        cases step
        have kept := writes.symm ▸ holds
        refine inv.next rfl (.of_plain (atPc ▸ trivial) ?_) ?_ inv.range (fun _ => .inl kept) fun _ _ => id
        · exact fun _ => (getLast?_cons_write holds).trans (ok.bottom holds)
        · exact inv.phase.nested holds kept (Local.acquiring_eq_zero.mpr unmoved) rfl (by omega)
      · cases step
        refine inv.quiet stays unmoved rfl (by simp) ⟨ok.bottom, ?_, by simp, by simp, by simp⟩
        intro _ same
        cases same
        trivial
    · cases step
  | writeLock =>
    simp only [act] at step
    split at step
    · rename_i atPc
      have stays : (s.thread t).pc ≠ .writeClearOwner := by simp [atPc]
      have unmoved : (s.thread t).pc ≠ .writeSetOwner := by simp [atPc]
      split at step
      · rename_i recorded
        cases step
        exact inv.quiet stays unmoved rfl (by simp)
          ⟨ok.bottom, by simp, by simp, fun _ => (inv.owner_iff stays).mp recorded, by simp⟩
      · cases step
        exact inv.quiet stays unmoved rfl (by simp) (.of_plain trivial ok.bottom)
    · cases step
  | unlock => exact step_unlock inv step
  | go spurious => exact step_go inv orderly step

theorem inv_init (writeFirst : Bool) : Inv (machine τ writeFirst).init where
  range := ⟨by simp [machine, Config.machine, LockWords.init, LockWords.rwLockFree],
    by simp [machine, Config.machine, LockWords.init, LockWords.rwLockFree]⟩
  ids := fun _ => rfl
  threads := fun _ => .of_plain trivial nofun
  phase := by
    have noReaders : readers (machine τ writeFirst).init = 0 := Config.total_eq_zero.mpr fun _ => rfl
    refine .free (Config.total_eq_zero.mpr fun _ => rfl) (Config.total_eq_zero.mpr fun _ => rfl) ?_
    rw [noReaders]
    rfl
  owner := nofun

theorem run_inv {writeFirst : Bool} {n : Nat} {state : Nat → State τ} {event : Nat → τ × Choice}
    (run : (machine τ writeFirst).Run n state event) {i : Nat} (bound : i ≤ n)
    (orderly : ∀ j, j < i → Orderly (state j) (event j)) : Inv (state i) := by
  induction i with
  | zero =>
    rw [run.start]
    exact inv_init writeFirst
  | succ i ih =>
    have inv := ih (by omega) fun j before => orderly j (by omega)
    obtain ⟨k, l, moved, after⟩ := Config.move_eq_some.mp (run.next i bound)
    rw [after]
    exact step_act inv (orderly i (Nat.lt_succ_self i)) moved

/-- The first step that is out of order leads to a state in which the lock breaks its promise. -/
theorem orderly_of_exclusive {writeFirst : Bool} {s s' : State τ} {e : τ × Choice} (inv : Inv s)
    (step : (machine τ writeFirst).step s e = some s') (exclusive : Exclusive s') : Orderly s e := by
  obtain ⟨t, c⟩ := e
  obtain ⟨k, l, moved, rfl⟩ := Config.move_eq_some.mp step
  have range := inv.range
  refine ⟨fun atPc => ?_, fun atPc exchanges => ?_, fun atPc => ?_⟩ <;> dsimp only at atPc ⊢
  · intro u different
    by_contra holds
    obtain ⟨spurious, -, goes⟩ := act_inside (by simp [atPc]) moved
    simp only [go, atPc] at goes
    cases goes
    have held := exclusive.held u (by
      simpa only [Function.update_of_ne different] using Nat.pos_of_ne_zero holds)
    cases held.1
  · obtain ⟨spurious, rfl, goes⟩ := act_inside (by simp [atPc]) moved
    cases exchanges
    simp only [go, atPc, ReadLoop.act, LockWords.compareExchangeWeak, and_self, if_true] at goes
    cases goes
    by_contra full
    have top : s.shared.words.lockNum = 2 ^ 31 - 1 := by omega
    have free : ∀ u, (s.thread u).writes = 0 ∧ (s.thread u).pc ≠ .writeSetOwner := by
      cases inv.phase with
      | free noWrites noneAcquires =>
        exact fun u => ⟨Config.total_eq_zero.mp noWrites u,
          Local.acquiring_eq_zero.mp (Config.total_eq_zero.mp noneAcquires u)⟩
      | acquired => omega
      | owned => omega
    have own : (s.thread t).writes = 0 := (free t).1
    have count := exclusive.read ((Function.forall_update_iff _ fun _ (l : Local τ) =>
      l.writes = 0 ∧ l.pc ≠ .writeSetOwner).mpr ⟨⟨by simpa [Local.writes] using own, by simp⟩, fun u _ => free u⟩)
    have wrapped : int32 (s.shared.words.lockNum + 1) = -2 ^ 31 := by rw [top]; decide
    simp only [wrapped] at count
    omega
  · obtain ⟨spurious, -, goes⟩ := act_inside (by simp [atPc]) moved
    simp only [go, atPc] at goes
    cases goes
    by_contra full
    have bottom : s.shared.words.lockNum = -2 ^ 31 := by omega
    have held := (exclusive.held t (by simp [Local.writes])).2.2
    have wrapped : int32 (s.shared.words.lockNum + -1) = 2 ^ 31 - 1 := by rw [bottom]; decide
    simp only [LockWords.fetchAdd, wrapped] at held
    omega

/-- Ownership and exclusion hold in every state of a run if and only if all its steps are in order. -/
theorem run_exclusive_iff {writeFirst : Bool} {n : Nat} {state : Nat → State τ} {event : Nat → τ × Choice}
    (run : (machine τ writeFirst).Run n state event) :
    (∀ i, i ≤ n → Exclusive (state i)) ↔ ∀ i, i < n → Orderly (state i) (event i) := by
  constructor
  · intro exclusive i
    induction i using Nat.strong_induction_on with
    | _ i earlier =>
      intro bound
      have inv := run_inv run bound.le fun j before => earlier j before (by omega)
      exact orderly_of_exclusive inv (run.next i bound) (exclusive (i + 1) bound)
  · intro orderly i bound
    exact (run_inv run bound fun j before => orderly j (by omega)).exclusive

end Totals

/-- One thread takes and releases a write guard with a read and a write guard inside. The other waits for it. -/
def nestedGuards : List (Bool × Choice) :=
  [(true, .writeLock), (true, .go false), (true, .go false), (true, .go false), (true, .go false), (true, .readLock),
    (false, .readLock), (true, .writeLock), (true, .go false), (false, .go false), (true, .unlock), (true, .unlock),
    (true, .unlock), (true, .go false), (false, .go false), (false, .go false), (false, .go false)]

theorem nestedGuards_exclusive :
    let state := (machine Bool true).stateAt nestedGuards
    (∀ i, i ≤ 17 → Exclusive (state i)) ∧ (state 9).shared = ⟨⟨-2, 0⟩, some true⟩ ∧
      (state 17).shared = ⟨⟨1, 0⟩, none⟩ := by
  have run := Machine.exec_run (M := machine Bool true) nestedGuards rfl (true, .go false)
  exact ⟨(run_exclusive_iff run).mpr (by decide), by decide, by decide⟩

/-- The first thread stands between the two accesses of `WriteUnlock` while the second takes a write guard. -/
def lateClear : List (Bool × Choice) :=
  [(true, .writeLock), (true, .go false), (true, .go false), (true, .go false), (true, .go false), (true, .unlock),
    (false, .writeLock), (false, .go false), (false, .go false), (false, .go false), (false, .go false),
    (true, .go false)]

theorem lateClear_not_exclusive :
    let s := (machine Bool true).stateAt lateClear 12
    (machine Bool true).Reach s ∧ (s.thread false).guards = [.write] ∧ s.shared = ⟨⟨-1, 0⟩, none⟩ ∧ ¬ Exclusive s := by
  refine ⟨Machine.stateAt_reach (M := machine Bool true) lateClear rfl, rfl, by decide, fun exclusive => ?_⟩
  have held := exclusive.held false (by decide)
  exact absurd held.1 (by decide)

end CyberRT.ReentrantRWLock

import CyberRT.Base.ReentrantRWLock

namespace CyberRT.ReentrantRWLock
open Concur
universe u

variable {τ : Type u}

/-- What holds of a thread wherever it stands. Below a write guard there are no read guards of the same thread. -/
structure Local.Ok (l : Local τ) : Prop where
  bottom : 0 < l.writes → l.guards.getLast? = some .write
  loops : ∀ loop, l.pc = .readLock loop → loop.Sound
  readUnlocks : l.pc = .readFetchSub → l.writes = 0 ∧ l.guards.head? = some .read
  nests : l.pc = .writeFetchSub → 0 < l.writes
  cleared : l.pc = .writeClearOwner → l.guards = []

/-- Where nothing but the order of the guards holds of a thread. -/
def Pc.Plain : Pc → Prop
  | .idle | .writeWaitNumAdd | .writeCompareExchange | .writeSetOwner | .writeWaitNumSub => True
  | .readLock _ | .readFetchSub | .writeFetchSub | .writeClearOwner => False

theorem Local.Ok.of_plain {l : Local τ} (plain : l.pc.Plain) (bottom : 0 < l.writes → l.guards.getLast? = some .write) :
    l.Ok := by
  refine ⟨bottom, fun loop here => ?_, fun here => ?_, fun here => ?_, fun here => ?_⟩ <;> rw [here] at plain
  all_goals exact plain.elim

theorem getLast?_cons_write {g : Guard} {guards : List Guard} (some : 0 < guards.count .write) :
    (g :: guards).getLast? = guards.getLast? := by
  cases guards with
  | nil => cases some
  | cons first rest => exact List.getLast?_cons_cons ..

section Totals
variable [Fintype τ]

/-- The read guards held. -/
def readers (s : State τ) : Nat :=
  Config.total Local.reads s.thread

/-- The write guards held. -/
def writers (s : State τ) : Nat :=
  Config.total Local.writes s.thread

/-- The threads that have stored `WRITE_EXCLUSIVE` and not yet their id. -/
def acquirers (s : State τ) : Nat :=
  Config.total Local.acquiring s.thread

/-- Who has the lock. -/
inductive Phase (s : State τ) : Prop
  | free : writers s = 0 → acquirers s = 0 → s.shared.words.lockNum = readers s → Phase s
  | acquired : writers s = 0 → acquirers s = 1 → readers s = 0 → s.shared.words.lockNum = -1 → Phase s
  | owned (t : τ) : 0 < (s.thread t).writes → (s.thread t).writes = writers s → (s.thread t).reads = readers s →
      acquirers s = 0 → s.shared.writeThreadId = some t → s.shared.words.lockNum = -(writers s : Int) → Phase s

structure Inv (s : State τ) : Prop where
  range : -2 ^ 31 ≤ s.shared.words.lockNum ∧ s.shared.words.lockNum < 2 ^ 31
  ids : ∀ t, (s.thread t).threadId = t
  threads : ∀ t, (s.thread t).Ok
  phase : Phase s
  /-- Only a holder of a write guard, or a thread that is about to clear it, finds its own id. -/
  owner : ∀ t, s.shared.writeThreadId = some t → 0 < (s.thread t).writes ∨ (s.thread t).pc = .writeClearOwner

/-- What the lock promises in a state. -/
structure Exclusive (s : State τ) : Prop where
  held : ∀ t, 0 < (s.thread t).writes → s.shared.writeThreadId = some t ∧ (∀ u, u ≠ t → (s.thread u).guards = []) ∧
    s.shared.words.lockNum = -((s.thread t).writes : Int)
  read : (∀ t, (s.thread t).writes = 0 ∧ (s.thread t).pc ≠ .writeSetOwner) → s.shared.words.lockNum = readers s
  released : (∀ t, (s.thread t).guards = [] ∧ (s.thread t).pc ≠ .writeSetOwner) → s.shared.words.lockNum = 0

theorem Phase.free_of {s : State τ} (phase : Phase s)
    (none : ∀ t, (s.thread t).writes = 0 ∧ (s.thread t).pc ≠ .writeSetOwner) : s.shared.words.lockNum = readers s := by
  cases phase with
  | free _ _ count => exact count
  | acquired _ one =>
    have zero : acquirers s = 0 := Config.total_eq_zero.mpr fun t => Local.acquiring_eq_zero.mpr (none t).2
    omega
  | owned t holds =>
    have zero := (none t).1
    omega

/-- A thread that has exchanged holds no guard, and nobody else does. -/
theorem Phase.acquired_of {s : State τ} (phase : Phase s) {t : τ} (acquires : (s.thread t).acquiring = 1) :
    writers s = 0 ∧ acquirers s = 1 ∧ readers s = 0 ∧ s.shared.words.lockNum = -1 := by
  have own := Config.le_total Local.acquiring s.thread t
  cases phase with
  | free _ none =>
    unfold acquirers at none
    omega
  | acquired noWrites one noReads locked => exact ⟨noWrites, one, noReads, locked⟩
  | owned h _ _ _ none =>
    unfold acquirers at none
    omega

/-- The id matters only while somebody holds a write guard. -/
theorem Phase.unowned {s : State τ} (phase : Phase s) (none : ∀ t, (s.thread t).writes = 0) {k : Lock τ}
    (count : k.words.lockNum = s.shared.words.lockNum) : Phase (⟨k, s.thread⟩ : State τ) := by
  cases phase with
  | free noWrites noneAcquires reads => exact .free noWrites noneAcquires (count.trans reads)
  | acquired noWrites one noReads locked => exact .acquired noWrites one noReads (count.trans locked)
  | owned t holds =>
    have := none t
    omega

variable [DecidableEq τ]

/-- The thread that holds a write guard holds all guards, and is recorded. -/
theorem Phase.owned_of {s : State τ} (phase : Phase s) {t : τ} (holds : 0 < (s.thread t).writes) :
    (s.thread t).writes = writers s ∧ (s.thread t).reads = readers s ∧ acquirers s = 0 ∧
      s.shared.writeThreadId = some t ∧ s.shared.words.lockNum = -(writers s : Int) := by
  have own := Config.le_total Local.writes s.thread t
  cases phase with
  | free none =>
    unfold writers at none
    omega
  | acquired none =>
    unfold writers at none
    omega
  | owned h held all reads none recorded count =>
    have same : h = t := by
      by_contra different
      have both := Config.add_le_total Local.writes s.thread different
      unfold writers at all
      omega
    subst same
    exact ⟨all, reads, none, recorded, count⟩

theorem Phase.others_nil {s : State τ} (phase : Phase s) {t u : τ} (holds : 0 < (s.thread t).writes)
    (different : u ≠ t) : (s.thread u).guards = [] := by
  obtain ⟨writes, reads, -⟩ := phase.owned_of holds
  have bothWrites := Config.add_le_total Local.writes s.thread different
  have bothReads := Config.add_le_total Local.reads s.thread different
  unfold writers at writes
  unfold readers at reads
  exact Local.guards_eq_nil.mpr ⟨by omega, by omega⟩

theorem Inv.exclusive {s : State τ} (inv : Inv s) : Exclusive s where
  held := by
    intro t holds
    obtain ⟨all, -, -, recorded, count⟩ := inv.phase.owned_of holds
    exact ⟨recorded, fun u different => inv.phase.others_nil holds different, by rw [count, all]⟩
  read := inv.phase.free_of
  released := by
    intro gone
    have free := inv.phase.free_of fun t => ⟨(Local.guards_eq_nil.mp (gone t).1).2, (gone t).2⟩
    have none : readers s = 0 := Config.total_eq_zero.mpr fun t => (Local.guards_eq_nil.mp (gone t).1).1
    rw [free, none]
    rfl

/-- The step of a thread that has a write guard before and after it. -/
theorem Phase.nested {s : State τ} (phase : Phase s) {t : τ} {k : Lock τ} {l : Local τ}
    (before : 0 < (s.thread t).writes) (after : 0 < l.writes) (moves : l.acquiring = 0)
    (recorded : k.writeThreadId = s.shared.writeThreadId)
    (count : k.words.lockNum = s.shared.words.lockNum + (s.thread t).writes - l.writes) :
    Phase ⟨k, Function.update s.thread t l⟩ := by
  have reads := Config.total_update Local.reads s.thread t l
  have writes := Config.total_update Local.writes s.thread t l
  have acquires := Config.total_update Local.acquiring s.thread t l
  obtain ⟨allWrites, allReads, none, owner, locked⟩ := phase.owned_of before
  simp only [writers, readers, acquirers] at allWrites allReads none locked
  refine .owned t ?_ ?_ ?_ ?_ (recorded.trans owner) ?_
  all_goals simp only [Function.update_self, writers, readers, acquirers]
  all_goals omega

/-- The step of a thread that changes neither the lock nor its guards. -/
theorem Phase.quiet {s : State τ} (phase : Phase s) {t : τ} {k : Lock τ} {l : Local τ}
    (guards : l.guards = (s.thread t).guards) (moves : l.acquiring = (s.thread t).acquiring)
    (recorded : k.writeThreadId = s.shared.writeThreadId) (count : k.words.lockNum = s.shared.words.lockNum) :
    Phase ⟨k, Function.update s.thread t l⟩ := by
  have sameReads : l.reads = (s.thread t).reads := by simp only [Local.reads, guards]
  have sameWrites : l.writes = (s.thread t).writes := by simp only [Local.writes, guards]
  have reads := Config.total_update Local.reads s.thread t l
  have writes := Config.total_update Local.writes s.thread t l
  have acquires := Config.total_update Local.acquiring s.thread t l
  cases phase with
  | free =>
    simp only [writers, readers, acquirers] at *
    refine .free ?_ ?_ ?_ <;> simp only [writers, readers, acquirers] <;> omega
  | acquired =>
    simp only [writers, readers, acquirers] at *
    refine .acquired ?_ ?_ ?_ ?_ <;> simp only [writers, readers, acquirers] <;> omega
  | owned h holds allWrites allReads none owner locked =>
    have writesAt : (Function.update s.thread t l h).writes = (s.thread h).writes := by
      by_cases same : h = t
      · rw [same, Function.update_self, sameWrites]
      · rw [Function.update_of_ne same]
    have readsAt : (Function.update s.thread t l h).reads = (s.thread h).reads := by
      by_cases same : h = t
      · rw [same, Function.update_self, sameReads]
      · rw [Function.update_of_ne same]
    simp only [writers, readers, acquirers] at allWrites allReads none locked
    refine .owned h ?_ ?_ ?_ ?_ (recorded.trans owner) ?_
    all_goals simp only [writesAt, readsAt, writers, readers, acquirers]
    all_goals omega

/-- A read guard that is counted comes or goes. -/
theorem Phase.reads {s : State τ} (phase : Phase s) {t : τ} {k : Lock τ} {l : Local τ}
    (free : 0 ≤ s.shared.words.lockNum ∨ (s.thread t).writes = 0 ∧ 0 < (s.thread t).reads)
    (writes : l.writes = (s.thread t).writes) (moves : l.acquiring = (s.thread t).acquiring)
    (count : k.words.lockNum = s.shared.words.lockNum + l.reads - (s.thread t).reads) :
    Phase ⟨k, Function.update s.thread t l⟩ := by
  have reads := Config.total_update Local.reads s.thread t l
  have writes := Config.total_update Local.writes s.thread t l
  have acquires := Config.total_update Local.acquiring s.thread t l
  have own := Config.le_total Local.reads s.thread t
  cases phase with
  | free =>
    simp only [writers, readers, acquirers] at *
    refine .free ?_ ?_ ?_ <;> simp only [writers, readers, acquirers] <;> omega
  | acquired =>
    simp only [writers, readers, acquirers] at *
    omega
  | owned h holds allWrites allReads none owner locked =>
    have positive : 0 < writers s := allWrites ▸ holds
    have same : h = t := by
      by_contra different
      have both := Config.add_le_total Local.reads s.thread different
      unfold readers at allReads
      omega
    subst same
    omega

theorem Phase.exchange {s : State τ} (phase : Phase s) {t : τ} {k : Lock τ} {l : Local τ}
    (free : s.shared.words.lockNum = 0) (guards : l.guards = (s.thread t).guards)
    (before : (s.thread t).acquiring = 0) (after : l.acquiring = 1) (count : k.words.lockNum = -1) :
    Phase ⟨k, Function.update s.thread t l⟩ := by
  have sameReads : l.reads = (s.thread t).reads := by simp only [Local.reads, guards]
  have sameWrites : l.writes = (s.thread t).writes := by simp only [Local.writes, guards]
  have reads := Config.total_update Local.reads s.thread t l
  have writes := Config.total_update Local.writes s.thread t l
  have acquires := Config.total_update Local.acquiring s.thread t l
  cases phase with
  | free =>
    simp only [writers, readers, acquirers] at *
    refine .acquired ?_ ?_ ?_ count <;> simp only [writers, readers, acquirers] <;> omega
  | acquired => omega
  | owned h holds allWrites =>
    rw [← allWrites] at *
    omega

theorem Phase.record {s : State τ} (phase : Phase s) {t : τ} {k : Lock τ} {l : Local τ}
    (acquires : (s.thread t).acquiring = 1) (moves : l.acquiring = 0) (guards : l.guards = [.write])
    (recorded : k.writeThreadId = some t) (count : k.words.lockNum = s.shared.words.lockNum) :
    Phase ⟨k, Function.update s.thread t l⟩ := by
  have reads := Config.total_update Local.reads s.thread t l
  have writes := Config.total_update Local.writes s.thread t l
  have leaves := Config.total_update Local.acquiring s.thread t l
  have oneWrite : l.writes = 1 := by rw [Local.writes, guards]; rfl
  have noRead : l.reads = 0 := by rw [Local.reads, guards]; rfl
  obtain ⟨noWrites, one, noReads, locked⟩ := phase.acquired_of acquires
  have ownReads := Config.le_total Local.reads s.thread t
  have ownWrites := Config.le_total Local.writes s.thread t
  simp only [writers, readers, acquirers] at noWrites one noReads
  refine .owned t ?_ ?_ ?_ ?_ recorded ?_
  all_goals simp only [Function.update_self, writers, readers, acquirers]
  all_goals omega

theorem Phase.release {s : State τ} (phase : Phase s) {t : τ} {k : Lock τ} {l : Local τ}
    (held : (s.thread t).writes = 1) (guards : l.guards = []) (moves : l.acquiring = 0)
    (count : k.words.lockNum = s.shared.words.lockNum + 1) : Phase ⟨k, Function.update s.thread t l⟩ := by
  have reads := Config.total_update Local.reads s.thread t l
  have writes := Config.total_update Local.writes s.thread t l
  have acquires := Config.total_update Local.acquiring s.thread t l
  obtain ⟨noReads, noWrites⟩ := Local.guards_eq_nil.mp guards
  obtain ⟨allWrites, allReads, none, -, locked⟩ := phase.owned_of (t := t) (by omega)
  simp only [writers, readers, acquirers] at allWrites allReads none locked
  refine .free ?_ ?_ ?_ <;> simp only [writers, readers, acquirers] <;> omega

end Totals

end CyberRT.ReentrantRWLock

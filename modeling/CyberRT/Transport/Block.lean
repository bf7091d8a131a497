import CyberRT.Base.AtomicRWLock
import CyberRT.Transport.ShmConf

namespace CyberRT
open Concur
universe u

/-- What the processes that map a segment share to lock its blocks: the counter of the `State`, and the
`lock_num_` of every block. -/
structure Blocks where
  seq : Nat
  lockNum : Nat → Int

namespace Blocks

def init : Blocks := ⟨0, fun _ => 0⟩

def fetchAddSeq (b : Blocks) : Blocks :=
  { b with seq := (b.seq + 1) % 2 ^ 32 }

/-- `lock_num_.compare_exchange_weak`: whether it stored the new value, and the blocks. -/
def compareExchangeWeak (b : Blocks) (index : Nat) (expected desired : Int) (spurious : Bool) : Bool × Blocks :=
  if b.lockNum index = expected ∧ spurious = false then
    (true, { b with lockNum := Function.update b.lockNum index desired })
  else (false, b)

/-- `lock_num_.fetch_add` -/
def fetchAdd (b : Blocks) (index : Nat) (diff : Int) : Blocks :=
  { b with lockNum := Function.update b.lockNum index (int32 (b.lockNum index + diff)) }

end Blocks

namespace Block

def rwLockFree : Int := 0

def writeExclusive : Int := -1

def maxTryLockTimes : Nat := 5

/-- The next access to the shared memory: of `GetNextWritableBlockIndex` with `TryLockForWrite`, until the block that
it has returned is released; of `TryLockForRead`, with its locals, until the same. -/
inductive Pc
  | idle
  | fetchAddSeq
  | tryLockForWrite (index : Nat)
  | writing (index : Nat)
  | load (index tryTimes : Nat)
  | compareExchange (index : Nat) (lockNum : Int) (tryTimes : Nat)
  | reading (index : Nat)
  deriving DecidableEq

/-- What a party begins; `go` is the next access of what it is in, whose `compare_exchange_weak` may fail for no
reason. -/
inductive Choice
  | acquireBlockToWrite
  | acquireBlockToRead (index : Nat)
  | release
  | go (spurious : Bool)
  deriving DecidableEq

/-- `ReleaseWrittenBlock` and `ReleaseReadBlock`, which differ in what they add to the lock. -/
def releaseBlock (conf : ShmConf) (b : Blocks) (index : Nat) (diff : Int) : Blocks :=
  if conf.blockNum ≤ index then b else b.fetchAdd index diff

def act (conf : ShmConf) (b : Blocks) (pc : Pc) : Choice → Option (Blocks × Pc)
  | .acquireBlockToWrite =>
    match pc with
    | .idle => some (b, .fetchAddSeq)
    | _ => none
  | .acquireBlockToRead index =>
    match pc with
    | .idle => some (b, if conf.blockNum ≤ index then .idle else .load index 0)
    | _ => none
  | .release =>
    match pc with
    | .writing index => some (releaseBlock conf b index 1, .idle)
    | .reading index => some (releaseBlock conf b index (-1), .idle)
    | _ => none
  | .go spurious =>
    match pc with
    | .fetchAddSeq => some (b.fetchAddSeq, .tryLockForWrite (b.seq % conf.blockNum))
    | .tryLockForWrite index =>
      match b.compareExchangeWeak index rwLockFree writeExclusive spurious with
      | (true, b) => some (b, .writing index)
      | (false, b) => some (b, .fetchAddSeq)
    | .load index tryTimes =>
      some (b, if b.lockNum index < rwLockFree then .idle else .compareExchange index (b.lockNum index) tryTimes)
    | .compareExchange index lockNum tryTimes =>
      match b.compareExchangeWeak index lockNum (int32 (lockNum + 1)) spurious with
      | (true, b) => some (b, .reading index)
      | (false, b) => some (b, if tryTimes + 1 = maxTryLockTimes then .idle else .load index (tryTimes + 1))
    | .idle | .writing _ | .reading _ => none

abbrev State (τ : Type u) := Config τ Blocks Pc

/-- Any number of writers and readers over one segment. -/
def machine (τ : Type u) [DecidableEq τ] (conf : ShmConf) : Machine (State τ) (τ × Choice) :=
  Config.machine .init (fun _ => .idle) (act conf)

namespace Pc

/-- One for a party that holds the block to read. -/
def reads (index : Nat) : Pc → Nat
  | .reading index' => if index' = index then 1 else 0
  | _ => 0

/-- One for a party that holds the block to write. -/
def writes (index : Nat) : Pc → Nat
  | .writing index' => if index' = index then 1 else 0
  | _ => 0

theorem reads_eq_zero {pc : Pc} {index : Nat} : pc.reads index = 0 ↔ pc ≠ .reading index := by
  unfold reads
  split
  · simp
  · rename_i other
    simpa using other index

theorem writes_eq_zero {pc : Pc} {index : Nat} : pc.writes index = 0 ↔ pc ≠ .writing index := by
  unfold writes
  split
  · simp
  · rename_i other
    simpa using other index

theorem writes_eq_one {pc : Pc} {index : Nat} : pc.writes index = 1 ↔ pc = .writing index := by
  unfold writes
  split
  · simp
  · rename_i other
    simpa using other index

/-- A block is in the segment, and `TryLockForRead` adds to a number only that it has found to be no writer's. -/
def Sound (conf : ShmConf) : Pc → Prop
  | .idle | .fetchAddSeq => True
  | .tryLockForWrite index | .writing index | .load index _ | .reading index => index < conf.blockNum
  | .compareExchange index lockNum _ => index < conf.blockNum ∧ 0 ≤ lockNum

end Pc

/-- What one access does to the locks and to what its party holds. -/
inductive Effect (b : Blocks) (pc : Pc) : Blocks → Pc → Prop
  | spins {b' : Blocks} {pc' : Pc} : b'.lockNum = b.lockNum → (∀ i, pc'.reads i = pc.reads i) →
      (∀ i, pc'.writes i = pc.writes i) → Effect b pc b' pc'
  | locksWrite {index : Nat} : b.lockNum index = rwLockFree → (∀ i, pc.reads i = 0) → (∀ i, pc.writes i = 0) →
      Effect b pc { b with lockNum := Function.update b.lockNum index writeExclusive } (.writing index)
  | locksRead {index : Nat} : rwLockFree ≤ b.lockNum index → (∀ i, pc.reads i = 0) → (∀ i, pc.writes i = 0) →
      Effect b pc (b.fetchAdd index 1) (.reading index)
  | unlocksWrite {index : Nat} : pc = .writing index → Effect b pc (b.fetchAdd index 1) .idle
  | unlocksRead {index : Nat} : pc = .reading index → Effect b pc (b.fetchAdd index (-1)) .idle

theorem go_effect {conf : ShmConf} {b b' : Blocks} {pc pc' : Pc} {spurious : Bool} (sound : pc.Sound conf)
    (step : act conf b pc (.go spurious) = some (b', pc')) : pc'.Sound conf ∧ Effect b pc b' pc' := by
  cases pc with
  | idle | writing | reading => cases step
  | fetchAddSeq =>
    cases step
    exact ⟨Nat.mod_lt _ conf.blockNum_pos, .spins rfl (fun _ => rfl) fun _ => rfl⟩
  | tryLockForWrite index =>
    simp only [act, Blocks.compareExchangeWeak] at step
    by_cases stores : b.lockNum index = rwLockFree ∧ spurious = false
    · rw [if_pos stores] at step
      cases step
      exact ⟨sound, .locksWrite stores.1 (fun _ => rfl) fun _ => rfl⟩
    · rw [if_neg stores] at step
      cases step
      exact ⟨trivial, .spins rfl (fun _ => rfl) fun _ => rfl⟩
  | load index tryTimes =>
    simp only [act] at step
    cases step
    split
    · exact ⟨trivial, .spins rfl (fun _ => rfl) fun _ => rfl⟩
    · rename_i free
      exact ⟨⟨sound, not_lt.mp free⟩, .spins rfl (fun _ => rfl) fun _ => rfl⟩
  | compareExchange index lockNum tryTimes =>
    simp only [act, Blocks.compareExchangeWeak] at step
    by_cases stores : b.lockNum index = lockNum ∧ spurious = false
    · rw [if_pos stores] at step
      cases step
      obtain ⟨rfl, -⟩ := stores
      exact ⟨sound.1, .locksRead sound.2 (fun _ => rfl) fun _ => rfl⟩
    · rw [if_neg stores] at step
      cases step
      split
      · exact ⟨trivial, .spins rfl (fun _ => rfl) fun _ => rfl⟩
      · exact ⟨sound.1, .spins rfl (fun _ => rfl) fun _ => rfl⟩

theorem act_effect {conf : ShmConf} {b b' : Blocks} {pc pc' : Pc} {c : Choice} (sound : pc.Sound conf)
    (step : act conf b pc c = some (b', pc')) : pc'.Sound conf ∧ Effect b pc b' pc' := by
  cases c with
  | go spurious => exact go_effect sound step
  | acquireBlockToWrite =>
    cases pc with
    | idle =>
      cases step
      exact ⟨trivial, .spins rfl (fun _ => rfl) fun _ => rfl⟩
    | _ => cases step
  | acquireBlockToRead index =>
    cases pc with
    | idle =>
      cases step
      split
      · exact ⟨trivial, .spins rfl (fun _ => rfl) fun _ => rfl⟩
      · rename_i inside
        exact ⟨not_le.mp inside, .spins rfl (fun _ => rfl) fun _ => rfl⟩
    | _ => cases step
  | release =>
    cases pc with
    | writing index =>
      cases step
      rw [releaseBlock, if_neg (not_le.mpr sound)]
      exact ⟨trivial, .unlocksWrite rfl⟩
    | reading index =>
      cases step
      rw [releaseBlock, if_neg (not_le.mpr sound)]
      exact ⟨trivial, .unlocksRead rfl⟩
    | _ => cases step

section Accounts
variable {τ : Type u} [Fintype τ]

/-- The readers that hold a block. -/
def readers (s : State τ) (index : Nat) : Nat :=
  Config.total (Pc.reads index) s.thread

/-- The writers that hold a block. -/
def writers (s : State τ) (index : Nat) : Nat :=
  Config.total (Pc.writes index) s.thread

structure Inv (conf : ShmConf) (s : State τ) : Prop where
  locks : ∀ i, (writers s i = 0 ∧ s.shared.lockNum i = readers s i) ∨
    (writers s i = 1 ∧ readers s i = 0 ∧ s.shared.lockNum i = writeExclusive)
  sound : ∀ t, (s.thread t).Sound conf

/-- What the locks promise in a state. -/
structure Protected (conf : ShmConf) (s : State τ) : Prop where
  locks : ∀ i,
    (s.shared.lockNum i = -1 ∧ (∃ t, s.thread t = .writing i ∧ ∀ u, u ≠ t → s.thread u ≠ .writing i) ∧
      ∀ t, s.thread t ≠ .reading i) ∨
    (s.shared.lockNum i = readers s i ∧ ∀ t, s.thread t ≠ .writing i)
  /-- The block whose index `GetNextWritableBlockIndex` has returned is held by nobody else. -/
  alone : ∀ t i, s.thread t = .writing i →
    i < conf.blockNum ∧ ∀ u, u ≠ t → s.thread u ≠ .writing i ∧ s.thread u ≠ .reading i

variable [DecidableEq τ] {conf : ShmConf} {s : State τ}

theorem Inv.protected (inv : Inv conf s) : Protected conf s := by
  have locks : ∀ i,
      (s.shared.lockNum i = -1 ∧ (∃ t, s.thread t = .writing i ∧ ∀ u, u ≠ t → s.thread u ≠ .writing i) ∧
        ∀ t, s.thread t ≠ .reading i) ∨
      (s.shared.lockNum i = readers s i ∧ ∀ t, s.thread t ≠ .writing i) := by
    intro i
    rcases inv.locks i with ⟨free, counted⟩ | ⟨one, none, locked⟩
    · exact .inr ⟨counted, fun t => Pc.writes_eq_zero.mp (Config.total_eq_zero.mp free t)⟩
    · obtain ⟨t, writes, others⟩ := Config.total_eq_one one
      exact .inl ⟨locked, ⟨t, Pc.writes_eq_one.mp writes, fun u different => Pc.writes_eq_zero.mp (others u different)⟩,
        fun u => Pc.reads_eq_zero.mp (Config.total_eq_zero.mp none u)⟩
  refine ⟨locks, fun t i holds => ⟨?_, fun u different => ?_⟩⟩
  · have sound := inv.sound t
    rw [holds] at sound
    exact sound
  · rcases locks i with ⟨-, ⟨v, -, others⟩, noReader⟩ | ⟨-, noWriter⟩
    · have same : t = v := by
        by_contra other
        exact others t other holds
      exact ⟨others u (same ▸ different), noReader u⟩
    · exact absurd holds (noWriter t)

/-- An access keeps the accounts of the block unless it lets in the reader number 2^31. -/
theorem Effect.locks {t : τ} {b : Blocks} {pc : Pc} (inv : Inv conf s) (effect : Effect s.shared (s.thread t) b pc)
    (few : ∀ i, readers (⟨b, Function.update s.thread t pc⟩ : State τ) i < 2 ^ 31) (i : Nat) :
    let s' : State τ := ⟨b, Function.update s.thread t pc⟩
    (writers s' i = 0 ∧ s'.shared.lockNum i = readers s' i) ∨
      (writers s' i = 1 ∧ readers s' i = 0 ∧ s'.shared.lockNum i = writeExclusive) := by
  have reads := Config.total_update (Pc.reads i) s.thread t pc
  have writes := Config.total_update (Pc.writes i) s.thread t pc
  have ownReads := Config.le_total (Pc.reads i) s.thread t
  have ownWrites := Config.le_total (Pc.writes i) s.thread t
  have before := inv.locks i
  have few := few i
  simp only [readers, writers, writeExclusive] at before few ⊢
  cases effect with
  | spins same sameReads sameWrites =>
    rw [sameReads] at reads
    rw [sameWrites] at writes
    rw [same]
    omega
  | @locksWrite index free noReads noWrites =>
    rw [noReads i] at reads
    rw [noWrites i] at writes
    simp only [rwLockFree] at free
    by_cases here : index = i
    · subst here
      simp only [Pc.reads, Pc.writes, if_true, Function.update_self] at reads writes ⊢
      exact .inr ⟨by omega, by omega, rfl⟩
    · simp only [Pc.reads, Pc.writes, if_neg here, Function.update_of_ne (Ne.symm here)] at reads writes ⊢
      omega
  | @locksRead index free noReads noWrites =>
    rw [noReads i] at reads
    rw [noWrites i] at writes
    simp only [rwLockFree] at free
    by_cases here : index = i
    · subst here
      simp only [Pc.reads, Pc.writes, if_true] at reads writes
      have value := int32_eq (x := s.shared.lockNum index + 1) (by omega) (by omega)
      simp only [Blocks.fetchAdd, Function.update_self, value]
      omega
    · simp only [Pc.reads, Pc.writes, if_neg here] at reads writes
      simp only [Blocks.fetchAdd, Function.update_of_ne (Ne.symm here)]
      omega
  | @unlocksWrite index held =>
    simp only [held, Pc.reads, Pc.writes] at reads writes ownReads ownWrites
    by_cases here : index = i
    · subst here
      rw [if_pos rfl] at writes ownWrites
      have value := int32_eq (x := s.shared.lockNum index + 1) (by omega) (by omega)
      simp only [Blocks.fetchAdd, Function.update_self, value]
      omega
    · rw [if_neg here] at writes ownWrites
      simp only [Blocks.fetchAdd, Function.update_of_ne (Ne.symm here)]
      omega
  | @unlocksRead index held =>
    simp only [held, Pc.reads, Pc.writes] at reads writes ownReads ownWrites
    by_cases here : index = i
    · subst here
      rw [if_pos rfl] at reads ownReads
      have value := int32_eq (x := s.shared.lockNum index + -1) (by omega) (by omega)
      simp only [Blocks.fetchAdd, Function.update_self, value]
      omega
    · rw [if_neg here] at reads ownReads
      simp only [Blocks.fetchAdd, Function.update_of_ne (Ne.symm here)]
      omega

theorem inv_init : Inv conf (machine τ conf).init where
  locks i := by
    have noWriters : writers (machine τ conf).init i = 0 := Config.total_eq_zero.mpr fun _ => rfl
    have noReaders : readers (machine τ conf).init i = 0 := Config.total_eq_zero.mpr fun _ => rfl
    exact .inl ⟨noWriters, by rw [noReaders]; rfl⟩
  sound _ := trivial

theorem Inv.step {t : τ} {c : Choice} {b : Blocks} {pc : Pc} (inv : Inv conf s)
    (moved : act conf s.shared (s.thread t) c = some (b, pc))
    (few : ∀ i, readers (⟨b, Function.update s.thread t pc⟩ : State τ) i < 2 ^ 31) :
    Inv conf ⟨b, Function.update s.thread t pc⟩ := by
  obtain ⟨sound, effect⟩ := act_effect (inv.sound t) moved
  refine ⟨effect.locks inv few, ?_⟩
  exact (Function.forall_update_iff _ fun _ (pc : Pc) => pc.Sound conf).mpr ⟨sound, fun u _ => inv.sound u⟩

theorem run_inv {n : Nat} {state : Nat → State τ} {event : Nat → τ × Choice}
    (run : (machine τ conf).Run n state event) (few : ∀ j, j ≤ n → ∀ i, readers (state j) i < 2 ^ 31) {j : Nat}
    (bound : j ≤ n) : Inv conf (state j) := by
  induction j with
  | zero =>
    rw [run.start]
    exact inv_init
  | succ j ih =>
    have inv := ih (by omega)
    obtain ⟨b, pc, moved, after⟩ := Config.move_eq_some.mp (run.next j bound)
    have fewAfter := few (j + 1) bound
    rw [after] at fewAfter ⊢
    exact inv.step moved fewAfter

/-- In every state of every interleaving with fewer than 2^31 readers of a block. -/
theorem run_protected {n : Nat} {state : Nat → State τ} {event : Nat → τ × Choice}
    (run : (machine τ conf).Run n state event) (few : ∀ j, j ≤ n → ∀ i, readers (state j) i < 2 ^ 31) {j : Nat}
    (bound : j ≤ n) : Protected conf (state j) :=
  (run_inv run few bound).protected

end Accounts

/-- A reader is refused while the block is written; later two of them read it, one after a retry. -/
def writtenAndRead : List (Bool × Choice) :=
  [(true, .acquireBlockToWrite), (true, .go false), (true, .go false), (false, .acquireBlockToRead 0),
    (false, .go false), (true, .release), (false, .acquireBlockToRead 0), (false, .go false), (false, .go true),
    (false, .go false), (false, .go false), (true, .acquireBlockToRead 0), (true, .go false), (true, .go false)]

theorem writtenAndRead_protected :
    let s := (machine Bool .new).stateAt writtenAndRead 14
    Protected .new s ∧ s.shared.lockNum 0 = 2 ∧ s.thread true = .reading 0 ∧ s.thread false = .reading 0 := by
  have run := Machine.exec_run (M := machine Bool .new) writtenAndRead rfl (true, .go false)
  have few : ∀ (s : State Bool) i, readers s i < 2 ^ 31 := by
    intro s i
    have single : ∀ t, (s.thread t).reads i ≤ 1 := by
      intro t
      unfold Pc.reads
      split
      · split <;> decide
      · decide
    have listed : ∀ t, (s.thread t).reads i ≠ 0 → t ∈ [true, false] := by simp
    exact (Config.total_le_length single listed).trans_lt (by decide)
  exact ⟨run_protected run (fun j _ => few _) (j := 14) (by decide), rfl, rfl, rfl⟩

/-- The first `n` of `N` processes read the first block. -/
def reading (N n : Nat) : State (Fin N) :=
  ⟨⟨0, Function.update (fun _ => 0) 0 (int32 n)⟩, fun t => if t.val < n then .reading 0 else .idle⟩

theorem reading_begins {conf : ShmConf} {N n : Nat} (t : Fin N) (here : t.val = n) :
    act conf (reading N n).shared ((reading N n).thread t) (.acquireBlockToRead 0) =
      some ((reading N n).shared, .load 0 0) := by
  have idle : (reading N n).thread t = .idle := if_neg (here ▸ Nat.lt_irrefl _)
  rw [idle]
  simp only [act, if_neg (not_le.mpr conf.blockNum_pos)]

theorem reading_loads {conf : ShmConf} {N n : Nat} (value : int32 n = n) :
    act conf (reading N n).shared (.load 0 0) (.go false) =
      some ((reading N n).shared, .compareExchange 0 n 0) := by
  simp only [act, reading, Function.update_self, value, rwLockFree, if_neg (not_lt.mpr (Int.natCast_nonneg n))]

theorem act_exchanges (conf : ShmConf) {b : Blocks} {index : Nat} {lockNum : Int} (tryTimes : Nat)
    (found : b.lockNum index = lockNum) : act conf b (.compareExchange index lockNum tryTimes) (.go false) =
      some ({ b with lockNum := Function.update b.lockNum index (int32 (lockNum + 1)) }, .reading index) := by
  subst found
  simp only [act, Blocks.compareExchangeWeak, true_and, if_true]

theorem reading_exchanges {conf : ShmConf} {N n : Nat} (value : int32 n = n) :
    act conf (reading N n).shared (.compareExchange 0 n 0) (.go false) =
      some ((reading N (n + 1)).shared, .reading 0) := by
  have found : (reading N n).shared.lockNum 0 = n := by
    simp only [reading, Function.update_self]
    exact value
  rw [act_exchanges conf 0 found]
  simp only [reading, Function.update_idem]
  rw [Int.natCast_succ]

theorem reading_next {N n : Nat} (t : Fin N) (here : t.val = n) :
    Function.update (reading N n).thread t (.reading 0) = (reading N (n + 1)).thread := by
  funext u
  by_cases same : u = t
  · subst same
    rw [Function.update_self]
    exact (if_pos (by omega)).symm
  · rw [Function.update_of_ne same]
    have other : u.val ≠ n := fun equal => same (Fin.ext (equal.trans here.symm))
    by_cases below : u.val < n
    · exact (if_pos below).trans (if_pos (by omega)).symm
    · exact (if_neg below).trans (if_neg (by omega)).symm

/-- One more process begins to read, loads the number, and exchanges it. -/
theorem reading_succ {conf : ShmConf} {N n : Nat} (t : Fin N) (here : t.val = n) (value : int32 n = n)
    (before : (machine (Fin N) conf).Reach (reading N n)) : (machine (Fin N) conf).Reach (reading N (n + 1)) := by
  have first := Machine.ReachWhen.next (e := (t, .acquireBlockToRead 0)) before trivial
    (Config.move_eq_some.mpr ⟨_, _, reading_begins t here, rfl⟩)
  have second := Machine.ReachWhen.next (e := (t, .go false)) first trivial
    (Config.move_eq_some.mpr ⟨_, _, by simpa only [Function.update_self] using reading_loads value, rfl⟩)
  have third := Machine.ReachWhen.next (e := (t, .go false)) second trivial
    (Config.move_eq_some.mpr ⟨_, _, by simpa only [Function.update_self] using reading_exchanges value, rfl⟩)
  rw [Function.update_idem, Function.update_idem, reading_next t here] at third
  exact third

theorem reading_zero (conf : ShmConf) (N : Nat) : reading N 0 = (machine (Fin N) conf).init := by
  have zero : Function.update (fun _ : Nat => (0 : Int)) 0 (int32 (0 : Nat)) = fun _ => 0 :=
    Function.update_eq_self 0 _
  have idle : (fun t : Fin N => if t.val < 0 then Pc.reading 0 else .idle) = fun _ => .idle :=
    funext fun t => if_neg (Nat.not_lt_zero _)
  rw [reading, zero, idle]
  rfl

theorem reading_reach {conf : ShmConf} {N n : Nat} (enough : n ≤ N) (positive : n ≤ 2 ^ 31) :
    (machine (Fin N) conf).Reach (reading N n) := by
  induction n with
  | zero =>
    rw [reading_zero conf]
    exact .start
  | succ n ih =>
    have value : int32 (n : Int) = n := int32_eq (by omega) (by omega)
    exact reading_succ ⟨n, enough⟩ rfl value (ih (by omega) (by omega))

/-- With 2^31 readers the lock number is that of no reader and no writer. -/
theorem manyReaders_unprotected :
    ∃ s : State (Fin (2 ^ 31)), (machine (Fin (2 ^ 31)) .new).Reach s ∧ (∀ t, s.thread t = .reading 0) ∧
      s.shared.lockNum 0 = -2 ^ 31 ∧ ¬ Protected .new s := by
  refine ⟨reading (2 ^ 31) (2 ^ 31), reading_reach le_rfl le_rfl, fun t => if_pos t.isLt, by decide, fun safe => ?_⟩
  have wrapped : (reading (2 ^ 31) (2 ^ 31)).shared.lockNum 0 = -2 ^ 31 := by decide
  rcases safe.locks 0 with ⟨locked, -⟩ | ⟨counted, -⟩
  · omega
  · omega

end Block

end CyberRT

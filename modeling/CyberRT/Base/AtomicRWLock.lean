import CyberRT.Lib.Count
import Mathlib.Data.Int.Init

namespace CyberRT
open Concur
universe u

/-- The value an `int32_t` takes for `x`. -/
def int32 (x : Int) : Int :=
  Int.bmod x (2 ^ 32)

theorem int32_eq {x : Int} (lower : -2 ^ 31 ≤ x) (upper : x < 2 ^ 31) : int32 x = x := by
  unfold int32
  exact Int.bmod_eq_of_le (by omega) (by omega)

/-- The two words that `AtomicRWLock` and `ReentrantRWLock` keep. -/
structure LockWords where
  lockNum : Int
  writeLockWaitNum : Nat
  deriving DecidableEq

namespace LockWords

def rwLockFree : Int := 0

def writeExclusive : Int := -1

def init : LockWords := ⟨rwLockFree, 0⟩

/-- `lock_num_.fetch_add(d)`; `fetch_sub(1)` adds -1. -/
def fetchAdd (w : LockWords) (d : Int) : LockWords :=
  { w with lockNum := int32 (w.lockNum + d) }

def waitNumAdd (w : LockWords) : LockWords :=
  { w with writeLockWaitNum := (w.writeLockWaitNum + 1) % 2 ^ 32 }

/-- The value a `uint32_t` takes one below `x`. -/
def uint32Pred (x : Nat) : Nat :=
  if x = 0 then 2 ^ 32 - 1 else x - 1

theorem uint32Pred_mod {n : Nat} (positive : 0 < n) : uint32Pred (n % 2 ^ 32) = (n - 1) % 2 ^ 32 := by
  unfold uint32Pred
  split <;> omega

def waitNumSub (w : LockWords) : LockWords :=
  { w with writeLockWaitNum := uint32Pred w.writeLockWaitNum }

/-- `lock_num_.compare_exchange_weak`: whether it stored the new value, and the words. -/
def compareExchangeWeak (w : LockWords) (expected desired : Int) (spurious : Bool) : Bool × LockWords :=
  if w.lockNum = expected ∧ spurious = false then (true, { w with lockNum := desired }) else (false, w)

end LockWords

/-- Where the loop that ends `ReadLock` stands, with its local `lock_num`. -/
inductive ReadLoop
  | load
  | loadWaitNum (lockNum : Int)
  | compareExchange (lockNum : Int)
  deriving DecidableEq

namespace ReadLoop

/-- The inner `while` reads the wait counter only for a lock number that is not negative, and only under
`write_first_`. -/
def loaded (writeFirst : Bool) (lockNum : Int) : ReadLoop :=
  if lockNum < LockWords.rwLockFree then .load
  else if writeFirst then .loadWaitNum lockNum
  else .compareExchange lockNum

/-- One access of the loop, and where it stands afterwards unless it has locked. A failing
`compare_exchange_weak` loads the lock number. -/
def act (writeFirst : Bool) (w : LockWords) (spurious : Bool) : ReadLoop → LockWords × Option ReadLoop
  | .load => (w, some (loaded writeFirst w.lockNum))
  | .loadWaitNum lockNum => (w, some (if w.writeLockWaitNum > 0 then .load else .compareExchange lockNum))
  | .compareExchange lockNum =>
    match w.compareExchangeWeak lockNum (int32 (lockNum + 1)) spurious with
    | (true, w) => (w, none)
    | (false, w) => (w, some (loaded writeFirst w.lockNum))

/-- The loop exchanges only a lock number that it has found to be free of writers. -/
def Sound : ReadLoop → Prop
  | .load => True
  | .loadWaitNum lockNum | .compareExchange lockNum => 0 ≤ lockNum

theorem loaded_sound (writeFirst : Bool) (lockNum : Int) : (loaded writeFirst lockNum).Sound := by
  unfold loaded
  split
  · trivial
  · rename_i free
    simp only [LockWords.rwLockFree, not_lt] at free
    split <;> exact free

theorem act_some {writeFirst : Bool} {w w' : LockWords} {spurious : Bool} {pc pc' : ReadLoop} (sound : pc.Sound)
    (step : pc.act writeFirst w spurious = (w', some pc')) : w' = w ∧ pc'.Sound := by
  cases pc with
  | load =>
    cases step
    exact ⟨rfl, loaded_sound ..⟩
  | loadWaitNum lockNum =>
    cases step
    refine ⟨rfl, ?_⟩
    split
    · trivial
    · exact sound
  | compareExchange lockNum =>
    simp only [act, LockWords.compareExchangeWeak] at step
    split at step
    · cases step
    · rename_i failed
      split at failed
      · cases failed
      · cases failed
        cases step
        exact ⟨rfl, loaded_sound ..⟩

theorem act_none {writeFirst : Bool} {w w' : LockWords} {spurious : Bool} {pc : ReadLoop} (sound : pc.Sound)
    (step : pc.act writeFirst w spurious = (w', none)) :
    0 ≤ w.lockNum ∧ w' = w.fetchAdd 1 ∧ pc = .compareExchange w.lockNum ∧ spurious = false := by
  cases pc with
  | load => cases step
  | loadWaitNum lockNum => cases step
  | compareExchange lockNum =>
    simp only [act, LockWords.compareExchangeWeak] at step
    split at step
    · rename_i stored
      split at stored
      · rename_i same
        cases stored
        cases step
        refine ⟨same.1 ▸ sound, ?_, by rw [same.1], same.2⟩
        rw [LockWords.fetchAdd, same.1]
      · cases stored
    · cases step

end ReadLoop

namespace AtomicRWLock

/-- Where a thread stands in a member function of the lock. -/
inductive Pc
  | idle
  | readLock (loop : ReadLoop)
  | writeCompareExchange
  | writeWaitNumSub
  deriving DecidableEq

/-- A thread with the guards that it holds. A read guard counts from the exchange that adds one to the lock
number, a write guard from the exchange that stores `WRITE_EXCLUSIVE`, each to the access of its unlock. -/
structure Local where
  pc : Pc
  reads : Nat
  writes : Nat
  deriving DecidableEq

/-- What an idle thread calls; `go` is the next access of the call it is in, whose
`compare_exchange_weak` may fail for no reason. -/
inductive Choice
  | readLock
  | writeLock
  | readUnlock
  | writeUnlock
  | go (spurious : Bool)
  deriving DecidableEq

def act (writeFirst : Bool) (w : LockWords) (l : Local) : Choice → Option (LockWords × Local)
  | .readLock =>
    match l.pc with
    | .idle => some (w, { l with pc := .readLock (ReadLoop.loaded writeFirst w.lockNum) })
    | _ => none
  | .writeLock =>
    match l.pc with
    | .idle => some (w.waitNumAdd, { l with pc := .writeCompareExchange })
    | _ => none
  | .readUnlock =>
    match l.pc, l.reads with
    | .idle, reads + 1 => some (w.fetchAdd (-1), { l with reads := reads })
    | _, _ => none
  | .writeUnlock =>
    match l.pc, l.writes with
    | .idle, writes + 1 => some (w.fetchAdd 1, { l with writes := writes })
    | _, _ => none
  | .go spurious =>
    match l.pc with
    | .idle => none
    | .readLock loop =>
      match loop.act writeFirst w spurious with
      | (w, some loop) => some (w, { l with pc := .readLock loop })
      | (w, none) => some (w, { l with pc := .idle, reads := l.reads + 1 })
    | .writeCompareExchange =>
      match w.compareExchangeWeak LockWords.rwLockFree LockWords.writeExclusive spurious with
      | (true, w) => some (w, { l with pc := .writeWaitNumSub, writes := l.writes + 1 })
      | (false, w) => some (w, l)
    | .writeWaitNumSub => some (w.waitNumSub, { l with pc := .idle })

abbrev State (τ : Type u) := Config τ LockWords Local

/-- Any number of threads over one lock. -/
def machine (τ : Type u) [DecidableEq τ] (writeFirst : Bool) : Machine (State τ) (τ × Choice) :=
  Config.machine .init (fun _ => ⟨.idle, 0, 0⟩) (act writeFirst)

/-- One for a thread that has entered `WriteLock` and not yet finished acquiring. -/
def Local.entered (l : Local) : Nat :=
  match l.pc with
  | .writeCompareExchange | .writeWaitNumSub => 1
  | _ => 0

def Local.Sound (l : Local) : Prop :=
  match l.pc with
  | .readLock loop => loop.Sound
  | _ => True

/-- What one access does to the words and to the guards of the thread. -/
inductive Effect (w : LockWords) (l : Local) : LockWords → Local → Prop
  | spins {l' : Local} : l'.reads = l.reads → l'.writes = l.writes → l'.entered = l.entered → Effect w l w l'
  | entersWrite {l' : Local} : l'.reads = l.reads → l'.writes = l.writes → l'.entered = l.entered + 1 →
      Effect w l w.waitNumAdd l'
  | locksRead {l' : Local} : 0 ≤ w.lockNum → l'.reads = l.reads + 1 → l'.writes = l.writes →
      l'.entered = l.entered → Effect w l (w.fetchAdd 1) l'
  | locksWrite {l' : Local} : w.lockNum = 0 → l'.reads = l.reads → l'.writes = l.writes + 1 →
      l'.entered = l.entered → Effect w l { w with lockNum := -1 } l'
  | leavesWrite {l' : Local} : l'.reads = l.reads → l'.writes = l.writes → l'.entered + 1 = l.entered →
      Effect w l w.waitNumSub l'
  | unlocksRead {l' : Local} : l'.reads + 1 = l.reads → l'.writes = l.writes → l'.entered = l.entered →
      Effect w l (w.fetchAdd (-1)) l'
  | unlocksWrite {l' : Local} : l'.reads = l.reads → l'.writes + 1 = l.writes → l'.entered = l.entered →
      Effect w l (w.fetchAdd 1) l'

theorem act_go {writeFirst : Bool} {w w' : LockWords} {l l' : Local} {spurious : Bool} (sound : l.Sound)
    (step : act writeFirst w l (.go spurious) = some (w', l')) : l'.Sound ∧ Effect w l w' l' := by
  obtain ⟨pc, reads, writes⟩ := l
  cases pc with
  | idle => cases step
  | readLock loop =>
    simp only [act] at step
    split at step
    · rename_i moved
      cases step
      obtain ⟨rfl, kept⟩ := ReadLoop.act_some sound moved
      exact ⟨kept, .spins rfl rfl rfl⟩
    · rename_i locked
      cases step
      obtain ⟨free, rfl, -⟩ := ReadLoop.act_none sound locked
      exact ⟨trivial, .locksRead free rfl rfl rfl⟩
  | writeCompareExchange =>
    simp only [act, LockWords.compareExchangeWeak] at step
    split at step
    · rename_i stored
      split at stored
      · rename_i same
        cases stored
        cases step
        exact ⟨trivial, .locksWrite same.1 rfl rfl rfl⟩
      · cases stored
    · rename_i failed
      split at failed
      · cases failed
      · cases failed
        cases step
        exact ⟨trivial, .spins rfl rfl rfl⟩
  | writeWaitNumSub =>
    cases step
    exact ⟨trivial, .leavesWrite rfl rfl rfl⟩

theorem act_effect {writeFirst : Bool} {w w' : LockWords} {l l' : Local} {c : Choice} (sound : l.Sound)
    (step : act writeFirst w l c = some (w', l')) : l'.Sound ∧ Effect w l w' l' := by
  cases c with
  | go spurious => exact act_go sound step
  | readLock =>
    simp only [act] at step
    split at step
    · rename_i idle
      cases step
      exact ⟨ReadLoop.loaded_sound .., .spins rfl rfl (by simp only [Local.entered, idle])⟩
    · cases step
  | writeLock =>
    simp only [act] at step
    split at step
    · rename_i idle
      cases step
      exact ⟨trivial, .entersWrite rfl rfl (by simp only [Local.entered, idle])⟩
    · cases step
  | readUnlock =>
    simp only [act] at step
    split at step
    · rename_i idle held
      cases step
      exact ⟨sound, .unlocksRead held.symm rfl rfl⟩
    · cases step
  | writeUnlock =>
    simp only [act] at step
    split at step
    · rename_i idle held
      cases step
      exact ⟨sound, .unlocksWrite rfl held.symm rfl⟩
    · cases step

section Accounts
variable {τ : Type u} [Fintype τ]

/-- The read guards held. -/
def readers (s : State τ) : Nat :=
  Config.total Local.reads s.thread

/-- The write guards held. -/
def writers (s : State τ) : Nat :=
  Config.total Local.writes s.thread

/-- The threads that have entered `WriteLock` and not yet finished acquiring. -/
def entering (s : State τ) : Nat :=
  Config.total Local.entered s.thread

structure Inv (s : State τ) : Prop where
  words : (writers s = 0 ∧ s.shared.lockNum = readers s) ∨
    (writers s = 1 ∧ readers s = 0 ∧ s.shared.lockNum = LockWords.writeExclusive)
  waits : s.shared.writeLockWaitNum = entering s % 2 ^ 32
  sound : ∀ t, (s.thread t).Sound

/-- What the lock promises in a state. -/
structure Accounted (s : State τ) : Prop where
  exclusive :
    (s.shared.lockNum = LockWords.writeExclusive ∧
      (∃ t, (s.thread t).writes = 1 ∧ ∀ u, u ≠ t → (s.thread u).writes = 0) ∧ ∀ t, (s.thread t).reads = 0) ∨
    (0 ≤ s.shared.lockNum ∧ s.shared.lockNum = readers s ∧ ∀ t, (s.thread t).writes = 0)
  /-- The counter of waiting writers is a `uint32_t`. -/
  waits : s.shared.writeLockWaitNum = entering s % 2 ^ 32
  released : (∀ t, (s.thread t).reads = 0 ∧ (s.thread t).writes = 0 ∧ (s.thread t).entered = 0) → s.shared = .init

variable [DecidableEq τ]

theorem Inv.accounted {s : State τ} (inv : Inv s) : Accounted s where
  exclusive := by
    rcases inv.words with ⟨none, readers⟩ | ⟨one, none, locked⟩
    · exact .inr ⟨by omega, readers, Config.total_eq_zero.mp none⟩
    · exact .inl ⟨locked, Config.total_eq_one one, Config.total_eq_zero.mp none⟩
  waits := inv.waits
  released := by
    intro gone
    have noReaders : readers s = 0 := Config.total_eq_zero.mpr fun t => (gone t).1
    have noWriters : writers s = 0 := Config.total_eq_zero.mpr fun t => (gone t).2.1
    have noneEntering : entering s = 0 := Config.total_eq_zero.mpr fun t => (gone t).2.2
    have free : s.shared.lockNum = 0 := by
      have := inv.words
      omega
    have waits : s.shared.writeLockWaitNum = 0 := by
      rw [inv.waits, noneEntering]
      rfl
    calc s.shared = ⟨s.shared.lockNum, s.shared.writeLockWaitNum⟩ := rfl
      _ = .init := by rw [free, waits]; rfl

/-- An access keeps the accounts unless it lets in the reader number 2^31. -/
theorem Effect.inv {s : State τ} (inv : Inv s) {t : τ} {w : LockWords} {l : Local}
    (effect : Effect s.shared (s.thread t) w l) (sound : l.Sound)
    (few : readers (⟨w, Function.update s.thread t l⟩ : State τ) < 2 ^ 31) :
    Inv ⟨w, Function.update s.thread t l⟩ := by
  have reads := Config.total_update Local.reads s.thread t l
  have writes := Config.total_update Local.writes s.thread t l
  have enters := Config.total_update Local.entered s.thread t l
  have ownReads := Config.le_total Local.reads s.thread t
  have ownWrites := Config.le_total Local.writes s.thread t
  have ownEntered := Config.le_total Local.entered s.thread t
  have words := inv.words
  have waits := inv.waits
  have sounds : ∀ u, (Function.update s.thread t l u).Sound :=
    (Function.forall_update_iff _ fun _ (l : Local) => l.Sound).mpr ⟨sound, fun u _ => inv.sound u⟩
  simp only [readers, writers, entering, LockWords.writeExclusive] at words waits few
  refine ⟨?_, ?_, sounds⟩ <;> simp only [readers, writers, entering, LockWords.writeExclusive]
  · cases effect with
    | spins => omega
    | entersWrite => simp only [LockWords.waitNumAdd]; omega
    | leavesWrite => simp only [LockWords.waitNumSub]; omega
    | locksWrite => exact .inr ⟨by omega, by omega, rfl⟩
    | locksRead =>
      have value := int32_eq (x := s.shared.lockNum + 1) (by omega) (by omega)
      simp only [LockWords.fetchAdd, value]
      omega
    | unlocksRead =>
      have value := int32_eq (x := s.shared.lockNum + -1) (by omega) (by omega)
      simp only [LockWords.fetchAdd, value]
      omega
    | unlocksWrite =>
      have value := int32_eq (x := s.shared.lockNum + 1) (by omega) (by omega)
      simp only [LockWords.fetchAdd, value]
      omega
  · cases effect with
    | entersWrite => simp only [LockWords.waitNumAdd]; omega
    | leavesWrite =>
      have fewer := LockWords.uint32Pred_mod (n := Config.total Local.entered s.thread) (by omega)
      simp only [LockWords.waitNumSub, waits, fewer]
      congr 1
      omega
    | spins => omega
    | locksWrite => simp only; omega
    | locksRead | unlocksRead | unlocksWrite => simp only [LockWords.fetchAdd]; omega

theorem inv_init (writeFirst : Bool) : Inv (machine τ writeFirst).init where
  words := by
    have noWriters : writers (machine τ writeFirst).init = 0 := Config.total_eq_zero.mpr fun _ => rfl
    have noReaders : readers (machine τ writeFirst).init = 0 := Config.total_eq_zero.mpr fun _ => rfl
    exact .inl ⟨noWriters, by rw [noReaders]; rfl⟩
  waits := by
    have noneEntering : entering (machine τ writeFirst).init = 0 := Config.total_eq_zero.mpr fun _ => rfl
    rw [noneEntering]
    rfl
  sound := fun _ => trivial

theorem run_inv {writeFirst : Bool} {n : Nat} {state : Nat → State τ} {event : Nat → τ × Choice}
    (run : (machine τ writeFirst).Run n state event) (few : ∀ i, i ≤ n → readers (state i) < 2 ^ 31) {i : Nat}
    (bound : i ≤ n) : Inv (state i) := by
  induction i with
  | zero =>
    rw [run.start]
    exact inv_init writeFirst
  | succ i ih =>
    have inv := ih (by omega)
    obtain ⟨w, l, moved, after⟩ := Config.move_eq_some.mp (run.next i bound)
    obtain ⟨sound, effect⟩ := act_effect (inv.sound _) moved
    have fewAfter := few (i + 1) bound
    rw [after] at fewAfter ⊢
    exact effect.inv inv sound fewAfter

/-- Mutual exclusion and accounting, in every state of every interleaving with fewer than 2^31 read guards. -/
theorem run_accounted {writeFirst : Bool} {n : Nat} {state : Nat → State τ} {event : Nat → τ × Choice}
    (run : (machine τ writeFirst).Run n state event) (few : ∀ i, i ≤ n → readers (state i) < 2 ^ 31) {i : Nat}
    (bound : i ≤ n) : Accounted (state i) :=
  (run_inv run few bound).accounted

end Accounts

/-- A writer waits for a reader, and a second reader waits for the writer. -/
def writerWaits : List (Bool × Choice) :=
  [(true, .readLock), (true, .go false), (true, .go false), (false, .writeLock), (true, .readLock), (false, .go false),
    (true, .go false), (true, .go false), (true, .go true), (true, .go false)]

theorem writerWaits_accounted :
    let s := (machine Bool true).stateAt writerWaits 10
    Accounted s ∧ s.shared = ⟨1, 1⟩ ∧ readers s = 1 ∧ entering s = 1 := by
  have run := Machine.exec_run (M := machine Bool true) writerWaits rfl (true, .go false)
  have few : ∀ i, i ≤ 10 → readers ((machine Bool true).stateAt writerWaits i) < 2 ^ 31 := by decide
  exact ⟨run_accounted run few (i := 10) (by decide), by decide, by decide, by decide⟩

end AtomicRWLock

end CyberRT

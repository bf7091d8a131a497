import CyberRT.Base.AtomicRWLock

namespace CyberRT.ReentrantRWLock
open Concur
universe u

inductive Guard
  | read
  | write
  deriving DecidableEq

/-- Where a thread stands in a member function of the lock. -/
inductive Pc
  | idle
  | readLock (loop : ReadLoop)
  | readFetchSub
  | writeFetchSub
  | writeWaitNumAdd
  | writeCompareExchange
  | writeSetOwner
  | writeWaitNumSub
  | writeClearOwner
  deriving DecidableEq

structure Lock (τ : Type u) where
  words : LockWords
  writeThreadId : Option τ
  deriving DecidableEq

/-- A thread with its guards, the innermost first. A write guard is held from the write of `write_thread_id_`,
or from the `fetch_sub` of a nested one, to the `fetch_add` of its unlock. -/
structure Local (τ : Type u) where
  threadId : τ
  pc : Pc
  guards : List Guard
  deriving DecidableEq

/-- What an idle thread calls: `unlock` is the end of its innermost guard. `go` is the next access of the call
it is in, whose `compare_exchange_weak` may fail for no reason. -/
inductive Choice
  | readLock
  | writeLock
  | unlock
  | go (spurious : Bool)
  deriving DecidableEq

variable {τ : Type u}

def Local.reads (l : Local τ) : Nat :=
  l.guards.count .read

def Local.writes (l : Local τ) : Nat :=
  l.guards.count .write

/-- One for a thread that has stored `WRITE_EXCLUSIVE` and not yet its id. -/
def Local.acquiring (l : Local τ) : Nat :=
  if l.pc = .writeSetOwner then 1 else 0

theorem Local.guards_eq_nil {l : Local τ} : l.guards = [] ↔ l.reads = 0 ∧ l.writes = 0 := by
  constructor
  · intro none
    simp only [Local.reads, Local.writes, none, List.count_nil, and_self]
  · rintro ⟨noReads, noWrites⟩
    refine List.eq_nil_iff_forall_not_mem.mpr fun guard member => ?_
    cases guard with
    | read => exact List.count_eq_zero.mp noReads member
    | write => exact List.count_eq_zero.mp noWrites member

theorem Local.acquiring_eq_zero {l : Local τ} : l.acquiring = 0 ↔ l.pc ≠ .writeSetOwner := by
  unfold Local.acquiring
  split <;> simp [*]

/-- One access of a call that has read `write_thread_id_`, or has added to `lock_num_`. -/
def go (writeFirst : Bool) (k : Lock τ) (l : Local τ) (spurious : Bool) : Option (Lock τ × Local τ) :=
  match l.pc with
  | .idle => none
  | .readLock loop =>
    match loop.act writeFirst k.words spurious with
    | (words, some loop) => some ({ k with words := words }, { l with pc := .readLock loop })
    | (words, none) => some ({ k with words := words }, { l with pc := .idle, guards := .read :: l.guards })
  | .readFetchSub =>
    some ({ k with words := k.words.fetchAdd (-1) }, { l with pc := .idle, guards := l.guards.tail })
  | .writeFetchSub =>
    some ({ k with words := k.words.fetchAdd (-1) }, { l with pc := .idle, guards := .write :: l.guards })
  | .writeWaitNumAdd => some ({ k with words := k.words.waitNumAdd }, { l with pc := .writeCompareExchange })
  | .writeCompareExchange =>
    match k.words.compareExchangeWeak LockWords.rwLockFree LockWords.writeExclusive spurious with
    | (true, words) => some ({ k with words := words }, { l with pc := .writeSetOwner })
    | (false, _) => some (k, l)
  | .writeSetOwner =>
    some ({ k with writeThreadId := some l.threadId }, { l with pc := .writeWaitNumSub, guards := .write :: l.guards })
  | .writeWaitNumSub => some ({ k with words := k.words.waitNumSub }, { l with pc := .idle })
  | .writeClearOwner => some ({ k with writeThreadId := none }, { l with pc := .idle })

def act [DecidableEq τ] (writeFirst : Bool) (k : Lock τ) (l : Local τ) : Choice → Option (Lock τ × Local τ)
  | .readLock =>
    match l.pc with
    | .idle =>
      if k.writeThreadId = some l.threadId then some (k, { l with guards := .read :: l.guards })
      else some (k, { l with pc := .readLock .load })
    | _ => none
  | .writeLock =>
    match l.pc with
    | .idle =>
      if k.writeThreadId = some l.threadId then some (k, { l with pc := .writeFetchSub })
      else some (k, { l with pc := .writeWaitNumAdd })
    | _ => none
  | .unlock =>
    match l.pc, l.guards with
    | .idle, .read :: guards =>
      if k.writeThreadId = some l.threadId then some (k, { l with guards := guards })
      else some (k, { l with pc := .readFetchSub })
    | .idle, .write :: guards =>
      some ({ k with words := k.words.fetchAdd 1 },
        { l with
          pc := if k.words.lockNum = LockWords.writeExclusive then .writeClearOwner else .idle
          guards := guards })
    | _, _ => none
  | .go spurious => go writeFirst k l spurious

abbrev State (τ : Type u) := Config τ (Lock τ) (Local τ)

/-- Any number of threads over one lock. -/
def machine (τ : Type u) [DecidableEq τ] (writeFirst : Bool) : Machine (State τ) (τ × Choice) :=
  Config.machine ⟨.init, none⟩ (fun t => ⟨t, .idle, []⟩) (act writeFirst)

end CyberRT.ReentrantRWLock

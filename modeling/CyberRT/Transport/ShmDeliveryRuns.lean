import Mathlib.Data.Fintype.Option
import CyberRT.Transport.ShmDelivery

namespace CyberRT.ShmDelivery
open Concur
universe u

namespace TransmitPc
variable {σ : Type u}

/-- Where the writer stands with the lock of a block. -/
def lock : TransmitPc σ → Block.Pc
  | .idle | .notify _ => .idle
  | .fetchAddSeq => .fetchAddSeq
  | .tryLockForWrite index => .tryLockForWrite index
  | .write index | .releaseFailed index => .writing index
  | .releaseWritten info => .writing info.blockIndex

/-- The notification that is to be sent. -/
def info : TransmitPc σ → Option (ReadableInfo σ)
  | .releaseWritten info | .notify info => some info
  | _ => none

end TransmitPc

namespace DispatcherPc
variable {σ : Type u}

def lock : DispatcherPc σ → Block.Pc
  | .listen => .idle
  | .load info tryTimes => .load info.blockIndex tryTimes
  | .compareExchange info lockNum tryTimes => .compareExchange info.blockIndex lockNum tryTimes
  | .read info | .release info => .reading info.blockIndex

/-- The notification whose message has yet to be read. -/
def info : DispatcherPc σ → Option (ReadableInfo σ)
  | .load info _ | .compareExchange info _ _ | .read info => some info
  | .listen | .release _ => none

end DispatcherPc

namespace State
variable {σ : Type u}

/-- The writers, and the dispatcher that is the only reader, as users of the locks. -/
def view (s : State σ) : Block.State (Option σ) where
  shared := s.blocks
  thread
    | none => s.dispatcher.lock
    | some p => (s.writers p).pc.lock

variable [DecidableEq σ]

theorem view_setWriter (s : State σ) (p : σ) (w : Writer σ) :
    (s.setWriter p w).view = ⟨s.blocks, Function.update s.view.thread (some p) w.pc.lock⟩ := by
  refine congrArg (Config.mk s.blocks) (funext fun t => ?_)
  cases t with
  | none => rfl
  | some q =>
    by_cases same : q = p
    · subst same
      simp only [setWriter, Function.update_self]
    · have other : some q ≠ some p := fun equal => same (Option.some.inj equal)
      simp only [setWriter, view, Function.update_of_ne same, Function.update_of_ne other]

theorem view_dispatcher (s : State σ) (pc : DispatcherPc σ) :
    ({ s with dispatcher := pc } : State σ).view = ⟨s.blocks, Function.update s.view.thread none pc.lock⟩ := by
  refine congrArg (Config.mk s.blocks) (funext fun t => ?_)
  cases t with
  | none => rfl
  | some q => rfl

end State

/-- In the view of the locks, a step is one of a user of the locks or nothing happens. -/
inductive Seen (conf : ShmConf) {σ : Type u} [DecidableEq σ] (s s' : State σ) : Prop
  | same : s'.view = s.view → Seen conf s s'
  | acts (t : Option σ) (c : Block.Choice) (pc : Block.Pc) :
      Block.act conf s.blocks (s.view.thread t) c = some (s'.blocks, pc) →
      s'.view = ⟨s'.blocks, Function.update s.view.thread t pc⟩ → Seen conf s s'

section Simulation
variable {σ : Type u} [DecidableEq σ] {conf : ShmConf} {s s' : State σ} {p : σ}

/-- A writer moves on, and stands with the lock where it stood. -/
theorem seen_stays {w : Writer σ} (same : w.pc.lock = (s.writers p).pc.lock) (view : s'.view = s.view) :
    Seen conf s (s'.setWriter p w) := by
  refine .same ?_
  have blocks : s'.blocks = s.blocks := congrArg Config.shared view
  rw [State.view_setWriter, same, view, blocks]
  exact congrArg (Config.mk s.blocks) (Function.update_eq_self (some p) s.view.thread)

/-- A writer takes a step of the lock protocol. -/
theorem seen_writer {w : Writer σ} (c : Block.Choice) (threads : s'.view.thread = s.view.thread)
    (acts : Block.act conf s.blocks (s.writers p).pc.lock c = some (s'.blocks, w.pc.lock)) :
    Seen conf s (s'.setWriter p w) :=
  .acts (some p) c w.pc.lock acts (by rw [State.view_setWriter, threads]; rfl)

/-- The dispatcher takes a step of the lock protocol. -/
theorem seen_dispatcher (t : State σ) {pc : DispatcherPc σ} (c : Block.Choice) (threads : t.view.thread = s.view.thread)
    (acts : Block.act conf s.blocks s.dispatcher.lock c = some (t.blocks, pc.lock)) :
    Seen conf s { t with dispatcher := pc } :=
  .acts none c pc.lock acts (by rw [State.view_dispatcher, threads])

theorem lock_seen {spurious : Bool} (step : s.lock conf p spurious = some s') : Seen conf s s' := by
  unfold State.lock at step
  split at step
  · rename_i here
    cases step
    refine seen_writer (.go spurious) rfl ?_
    rw [here]
    rfl
  · rename_i index here
    unfold Blocks.compareExchangeWeak at step
    split at step
    · rename_i blocks stored
      cases step
      refine seen_writer (.go spurious) rfl ?_
      rw [here]
      simp only [TransmitPc.lock, Block.act, Blocks.compareExchangeWeak, stored]
    · rename_i blocks stored
      cases step
      refine seen_writer (.go spurious) rfl ?_
      rw [here]
      simp only [TransmitPc.lock, Block.act, Blocks.compareExchangeWeak, stored]
  · cases step

theorem write_seen {serialized : Bool} (step : s.write p serialized = some s') : Seen conf s s' := by
  unfold State.write at step
  split at step
  · rename_i index here
    split at step
    · cases step
      refine seen_stays ?_ rfl
      rw [here]
      rfl
    · cases step
      refine seen_stays ?_ rfl
      rw [here]
      rfl
  · cases step

theorem release_seen (step : s.release conf p = some s') : Seen conf s s' := by
  unfold State.release at step
  split at step
  · rename_i index here
    cases step
    refine seen_writer .release rfl ?_
    rw [here]
    rfl
  · rename_i info here
    cases step
    refine seen_writer .release rfl ?_
    rw [here]
    rfl
  · cases step

theorem notify_seen (step : s.notify p = some s') : Seen conf s s' := by
  unfold State.notify at step
  split at step
  · rename_i info here
    cases step
    refine seen_stays ?_ rfl
    rw [here]
    rfl
  · cases step

theorem listen_seen (step : s.listen conf = some s') : Seen conf s s' := by
  unfold State.listen at step
  split at step
  · rename_i info queue here waiting
    cases step
    refine seen_dispatcher { s with queue := queue } (.acquireBlockToRead info.blockIndex) rfl ?_
    rw [here]
    split
    · rename_i outside
      simp only [DispatcherPc.lock, Block.act, if_pos outside]
    · rename_i inside
      simp only [DispatcherPc.lock, Block.act, if_neg inside]
  · cases step

theorem lockRead_seen {spurious : Bool} (step : s.lockRead spurious = some s') : Seen conf s s' := by
  unfold State.lockRead at step
  split at step
  · rename_i info tryTimes here
    cases step
    refine seen_dispatcher s (.go spurious) rfl ?_
    rw [here]
    split
    · rename_i written
      simp only [DispatcherPc.lock, Block.act, if_pos written]
    · rename_i free
      simp only [DispatcherPc.lock, Block.act, if_neg free]
  · rename_i info lockNum tryTimes here
    split at step
    · rename_i blocks stored
      cases step
      refine seen_dispatcher { s with blocks := blocks } (.go spurious) rfl ?_
      rw [here]
      simp only [DispatcherPc.lock, Block.act, stored]
    · rename_i blocks stored
      cases step
      refine seen_dispatcher { s with blocks := blocks } (.go spurious) rfl ?_
      rw [here]
      simp only [DispatcherPc.lock, Block.act, stored]
      split <;> rfl
  · cases step

theorem read_seen {handed : Bool} (step : s.read handed = some s') : Seen conf s s' := by
  unfold State.read at step
  split at step
  · rename_i info here
    cases step
    refine .same ?_
    have view := State.view_dispatcher s (.release info)
    have same : (DispatcherPc.release info).lock = s.view.thread none := by
      show _ = s.dispatcher.lock
      rw [here]
      rfl
    rw [same, Function.update_eq_self] at view
    exact view
  · cases step

theorem releaseRead_seen (step : s.releaseRead conf = some s') : Seen conf s s' := by
  unfold State.releaseRead at step
  split at step
  · rename_i info here
    cases step
    refine seen_dispatcher { s with blocks := Block.releaseBlock conf s.blocks info.blockIndex (-1) } .release
      rfl ?_
    rw [here]
    rfl
  · cases step

theorem step_seen {e : Event σ} (step : (machine σ conf).step s e = some s') : Seen conf s s' := by
  cases e with
  | transmit p =>
    simp only [machine] at step
    split at step
    · rename_i here
      cases step
      refine seen_writer .acquireBlockToWrite rfl ?_
      rw [here]
      rfl
    · cases step
  | lock p spurious => exact lock_seen step
  | write p serialized => exact write_seen step
  | release p => exact release_seen step
  | notify p => exact notify_seen step
  | listen => exact listen_seen step
  | lockRead spurious => exact lockRead_seen step
  | read handed => exact read_seen step
  | releaseRead => exact releaseRead_seen step

end Simulation

namespace State
variable {σ : Type u}

/-- The notifications whose messages have yet to be read. -/
def inFlight (s : State σ) : List (ReadableInfo σ) :=
  s.dispatcher.info.toList ++ s.queue

/-- A message has been written, and has yet to be read for its notification. -/
def Pending (s : State σ) (info : ReadableInfo σ) : Prop :=
  (∃ p, (s.writers p).pc.info = some info) ∨ info ∈ s.inFlight

/-- The notifications in the order in which they were sent, less those that were given up. -/
def announced (s : State σ) : List (ReadableInfo σ) :=
  s.delivered.map Delivery.info ++ s.inFlight

end State

/-- Messages of one writer were sent in this order. -/
def Before {σ : Type u} (a b : ReadableInfo σ) : Prop :=
  a.announces.1 = b.announces.1 → a.announces.2 < b.announces.2

section Invariant
variable {σ : Type u} [DecidableEq σ] [Fintype σ] {conf : ShmConf} {s s' : State σ} {p : σ}

structure Inv (conf : ShmConf) (s : State σ) : Prop where
  locks : Block.Inv conf s.view
  /-- The message is there as long as the block has not been locked again. -/
  kept : ∀ info, s.Pending info → info.locked = s.locked info.blockIndex →
    s.content info.blockIndex = some info.announces
  older : ∀ info, s.Pending info → info.locked ≤ s.locked info.blockIndex
  writing : ∀ p index, (s.writers p).pc = .write index → ∀ info, s.Pending info → info.blockIndex = index →
    info.locked < s.locked index
  delivered : ∀ d ∈ s.delivered, d.locked = d.info.locked → d.message = some d.info.announces
  order : s.announced.Pairwise Before
  sent : ∀ info ∈ s.announced, info.announces.2 < (s.writers info.announces.1).sent
  own : ∀ p info, (s.writers p).pc.info = some info → info.announces = (p, (s.writers p).sent)

/-- The dispatcher is the only reader. -/
theorem few_readers (s : State σ) (i : Nat) : Block.readers s.view i < 2 ^ 31 := by
  have single : ∀ t, (s.view.thread t).reads i ≤ 1 := by
    intro t
    unfold Block.Pc.reads
    split
    · split <;> decide
    · decide
  have listed : ∀ t, (s.view.thread t).reads i ≠ 0 → t ∈ [none] := by
    intro t reads
    cases t with
    | none => exact List.mem_singleton_self none
    | some p =>
      refine absurd ?_ reads
      show ((s.writers p).pc.lock).reads i = 0
      cases (s.writers p).pc <;> rfl
  have one := Config.total_le_length single listed
  exact one.trans_lt (Nat.one_lt_two_pow (by decide))

theorem Inv.locks_step {e : Event σ} (inv : Inv conf s) (step : (machine σ conf).step s e = some s') :
    Block.Inv conf s'.view := by
  cases step_seen step with
  | same view =>
    rw [view]
    exact inv.locks
  | acts t c pc acts view =>
    have few := few_readers s'
    rw [view] at few ⊢
    exact inv.locks.step acts few

omit [DecidableEq σ] in
/-- A step that writes nothing, sends nothing and hands over nothing; a notification may be given up, and a writer
may return. -/
theorem Inv.frame (inv : Inv conf s) (locks : Block.Inv conf s'.view) (content : s'.content = s.content)
    (locked : s'.locked = s.locked) (delivered : s'.delivered = s.delivered) (fewer : s'.inFlight.Sublist s.inFlight)
    (writing : ∀ p index, (s'.writers p).pc = .write index → (s.writers p).pc = .write index)
    (infos : ∀ p info, (s'.writers p).pc.info = some info →
      (s.writers p).pc.info = some info ∧ (s'.writers p).sent = (s.writers p).sent)
    (sent : ∀ p, (s.writers p).sent ≤ (s'.writers p).sent) : Inv conf s' := by
  have pending : ∀ info, s'.Pending info → s.Pending info := by
    rintro info (⟨p, mine⟩ | waits)
    · exact .inl ⟨p, (infos p info mine).1⟩
    · exact .inr (fewer.subset waits)
  have announced : s'.announced.Sublist s.announced := by
    unfold State.announced
    rw [delivered]
    exact (List.Sublist.refl _).append fewer
  refine ⟨locks, fun info there => ?_, fun info there => ?_, fun p index here info there => ?_, ?_,
    inv.order.sublist announced, fun info member => ?_, fun p info mine => ?_⟩
  · rw [locked, content]
    exact inv.kept info (pending info there)
  · rw [locked]
    exact inv.older info (pending info there)
  · rw [locked]
    exact inv.writing p index (writing p index here) info (pending info there)
  · rw [delivered]
    exact inv.delivered
  · exact (inv.sent info (announced.subset member)).trans_le (sent _)
  · rw [(infos p info mine).2]
    exact inv.own p info (infos p info mine).1

/-- A writer moves on, and nothing else that counts for the messages changes. -/
theorem Inv.writer {w : Writer σ} {blocks : Blocks} (inv : Inv conf s)
    (locks : Block.Inv conf ({ s with blocks := blocks }.setWriter p w).view) (writing : ∀ i, w.pc ≠ .write i)
    (infos : ∀ info, w.pc.info = some info → (s.writers p).pc.info = some info ∧ w.sent = (s.writers p).sent)
    (sent : (s.writers p).sent ≤ w.sent) : Inv conf ({ s with blocks := blocks }.setWriter p w) := by
  refine inv.frame locks rfl rfl rfl (List.Sublist.refl _) (fun q i here => ?_) (fun q info mine => ?_) fun q => ?_
  · by_cases same : q = p
    · subst same
      simp only [State.setWriter, Function.update_self] at here
      exact absurd here (writing i)
    · simpa only [State.setWriter, Function.update_of_ne same] using here
  · by_cases same : q = p
    · subst same
      simp only [State.setWriter, Function.update_self] at mine ⊢
      exact infos info mine
    · simpa only [State.setWriter, Function.update_of_ne same, and_true] using mine
  · by_cases same : q = p
    · subst same
      simpa only [State.setWriter, Function.update_self] using sent
    · simp only [State.setWriter, Function.update_of_ne same, le_refl]

omit [DecidableEq σ] in
/-- The dispatcher moves on, with the notification that it has, or gives it up. -/
theorem Inv.dispatcher {pc : DispatcherPc σ} {blocks : Blocks} {queue : List (ReadableInfo σ)} (inv : Inv conf s)
    (locks : Block.Inv conf ({ s with blocks := blocks, queue := queue, dispatcher := pc } : State σ).view)
    (fewer : (pc.info.toList ++ queue).Sublist s.inFlight) :
    Inv conf { s with blocks := blocks, queue := queue, dispatcher := pc } :=
  inv.frame locks rfl rfl rfl fewer (fun _ _ => id) (fun _ _ mine => ⟨mine, rfl⟩) fun _ => le_rfl

omit [Fintype σ] in
/-- What is pending after a writer has moved on: what it is about to announce, and what was pending before. -/
theorem pending_setWriter {w : Writer σ} {info : ReadableInfo σ} (there : (s.setWriter p w).Pending info) :
    w.pc.info = some info ∨ s.Pending info := by
  rcases there with ⟨q, mine⟩ | waits
  · by_cases same : q = p
    · subst same
      simp only [State.setWriter, Function.update_self] at mine
      exact .inl mine
    · simp only [State.setWriter, Function.update_of_ne same] at mine
      exact .inr (.inl ⟨q, mine⟩)
  · exact .inr (.inr waits)

/-- What writers have and what they are about to announce, after one has moved on with the number it had. -/
theorem Inv.own_goto {pc : TransmitPc σ} {t : State σ} (inv : Inv conf s) (writers : t.writers = s.writers)
    (mine : ∀ info, pc.info = some info → info.announces = (p, (s.writers p).sent)) (q : σ)
    (info : ReadableInfo σ) (theirs : ((t.goto p pc).writers q).pc.info = some info) :
    info.announces = (q, ((t.goto p pc).writers q).sent) := by
  by_cases same : q = p
  · subst same
    simp only [State.goto, State.setWriter, Function.update_self] at theirs ⊢
    rw [writers]
    exact mine info theirs
  · simp only [State.goto, State.setWriter, Function.update_of_ne same, writers] at theirs ⊢
    exact inv.own q info theirs

omit [Fintype σ] in
theorem sent_goto {pc : TransmitPc σ} {t : State σ} (writers : t.writers = s.writers) (q : σ) :
    ((t.goto p pc).writers q).sent = (s.writers q).sent := by
  by_cases same : q = p
  · subst same
    simp only [State.goto, State.setWriter, Function.update_self, writers]
  · simp only [State.goto, State.setWriter, Function.update_of_ne same, writers]

/-- The block is locked for writing, which every pending message in it learns. -/
theorem Inv.locked {index : Nat} {blocks : Blocks} (inv : Inv conf s)
    (locks : Block.Inv conf ({ s with
      blocks := blocks, locked := Function.update s.locked index (s.locked index + 1) }.goto p (.write index)).view) :
    Inv conf ({ s with blocks := blocks, locked := Function.update s.locked index (s.locked index + 1) }.goto p
      (.write index)) := by
  let t : State σ := { s with blocks := blocks, locked := Function.update s.locked index (s.locked index + 1) }
  have pending : ∀ info, (t.goto p (.write index)).Pending info → s.Pending info := fun info there =>
    (pending_setWriter there).elim (fun mine => by cases mine) id
  have here : ∀ info, s.Pending info → info.blockIndex = index → info.locked < t.locked index := by
    intro info there same
    have older := inv.older info there
    rw [same] at older
    simpa only [t, Function.update_self] using Nat.lt_succ_of_le older
  have elsewhere : ∀ i, i ≠ index → t.locked i = s.locked i := fun i other => Function.update_of_ne other ..
  refine ⟨locks, fun info there again => ?_, fun info there => ?_, fun q i writes info there same => ?_, inv.delivered,
    inv.order, fun info member => ?_, inv.own_goto rfl fun info mine => by cases mine⟩
  · have before := pending info there
    by_cases same : info.blockIndex = index
    · have lt := here info before same
      rw [same] at again
      exact absurd again lt.ne
    · exact inv.kept info before (again.trans (elsewhere _ same))
  · have before := pending info there
    by_cases same : info.blockIndex = index
    · have lt := here info before same
      rw [same]
      exact lt.le
    · exact (inv.older info before).trans_eq (elsewhere _ same).symm
  · have before := pending info there
    by_cases this : i = index
    · subst this
      exact here info before same
    · by_cases mine : q = p
      · subst mine
        simp only [State.goto, State.setWriter, Function.update_self, TransmitPc.write.injEq] at writes
        exact absurd writes.symm this
      · simp only [State.goto, State.setWriter, Function.update_of_ne mine] at writes
        exact (inv.writing q i writes info before same).trans_eq (elsewhere _ this).symm
  · exact (inv.sent info member).trans_eq (sent_goto rfl _).symm

/-- The block is written: nobody waits for what was in it since it was locked. -/
theorem Inv.write {index : Nat} {message : Option (σ × Nat)} {pc : TransmitPc σ} (inv : Inv conf s)
    (here : (s.writers p).pc = .write index)
    (locks : Block.Inv conf ({ s with content := Function.update s.content index message }.goto p pc).view)
    (writes : ∀ i, pc ≠ .write i)
    (info : ∀ info, pc.info = some info → info.blockIndex = index ∧ info.locked = s.locked index ∧
      info.announces = (p, (s.writers p).sent) ∧ message = some info.announces) :
    Inv conf ({ s with content := Function.update s.content index message }.goto p pc) := by
  have alone : ∀ q, q ≠ p → (s.writers q).pc ≠ .write index := by
    intro q other theirs
    have mine : s.view.thread (some p) = .writing index := congrArg TransmitPc.lock here
    have lock : s.view.thread (some q) = .writing index := congrArg TransmitPc.lock theirs
    have different : some q ≠ some p := fun equal => other (Option.some.inj equal)
    exact ((inv.locks.protected.alone (some p) index mine).2 (some q) different).1 lock
  refine ⟨locks, fun i there again => ?_, fun i there => ?_, fun q i writing info' there same => ?_, inv.delivered,
    inv.order, fun i member => ?_, inv.own_goto rfl fun i mine => (info i mine).2.2.1⟩
  · rcases pending_setWriter there with mine | before
    · obtain ⟨this, -, -, written⟩ := info i mine
      rw [this]
      exact (Function.update_self ..).trans written
    · have other : i.blockIndex ≠ index := by
        intro same
        have older := inv.writing p index here i before same
        rw [same] at again
        exact absurd again older.ne
      exact (Function.update_of_ne other ..).trans (inv.kept i before again)
  · rcases pending_setWriter there with mine | before
    · obtain ⟨this, locked, -, -⟩ := info i mine
      rw [this]
      exact locked.le
    · exact inv.older i before
  · by_cases mine : q = p
    · subst mine
      simp only [State.goto, State.setWriter, Function.update_self] at writing
      exact absurd writing (writes i)
    · simp only [State.goto, State.setWriter, Function.update_of_ne mine] at writing
      rcases pending_setWriter there with own | before
      · obtain ⟨this, -, -, -⟩ := info info' own
        rw [← same, this] at writing
        exact absurd writing (alone q mine)
      · exact inv.writing q i writing info' before same
  · exact (inv.sent i member).trans_eq (sent_goto rfl _).symm

/-- A notification is sent, after all those of earlier messages of its writer. -/
theorem Inv.notify {info : ReadableInfo σ} (inv : Inv conf s) (here : (s.writers p).pc = .notify info)
    (locks : Block.Inv conf ({ s with queue := s.queue ++ [info] }.returns p).view) :
    Inv conf ({ s with queue := s.queue ++ [info] }.returns p) := by
  let t : State σ := { s with queue := s.queue ++ [info] }.returns p
  have mine : (s.writers p).pc.info = some info := congrArg TransmitPc.info here
  have number : info.announces = (p, (s.writers p).sent) := inv.own p info mine
  have announced : t.announced = s.announced ++ [info] := by
    simp only [t, State.returns, State.setWriter, State.announced, State.inFlight, List.append_assoc]
  have others : ∀ q, q ≠ p → t.writers q = s.writers q := fun q other => Function.update_of_ne other ..
  have own : t.writers p = ⟨.idle, (s.writers p).sent + 1⟩ := Function.update_self ..
  have pending : ∀ i, t.Pending i → s.Pending i := by
    rintro i (⟨q, theirs⟩ | waits)
    · by_cases same : q = p
      · subst same
        rw [own] at theirs
        cases theirs
      · rw [others q same] at theirs
        exact .inl ⟨q, theirs⟩
    · rcases List.mem_append.mp waits with first | later
      · exact .inr (List.mem_append_left _ first)
      · rcases List.mem_append.mp later with queued | last
        · exact .inr (List.mem_append_right _ queued)
        · obtain rfl := List.mem_singleton.mp last
          exact .inl ⟨p, mine⟩
  have sent : ∀ q, (s.writers q).sent ≤ (t.writers q).sent := by
    intro q
    by_cases same : q = p
    · subst same
      rw [own]
      exact Nat.le_succ _
    · rw [others q same]
  refine ⟨locks, fun i there => inv.kept i (pending i there), fun i there => inv.older i (pending i there),
    fun q i writes info' there => ?_, inv.delivered, ?_, fun i member => ?_, fun q i theirs => ?_⟩
  · by_cases same : q = p
    · subst same
      rw [show _ = _ from own] at writes
      cases writes
    · rw [show _ = _ from others q same] at writes
      exact inv.writing q i writes info' (pending info' there)
  · show t.announced.Pairwise Before
    rw [announced, List.pairwise_append]
    refine ⟨inv.order, List.pairwise_singleton _ _, fun a before b last => ?_⟩
    obtain rfl := List.mem_singleton.mp last
    intro writer
    have smaller := inv.sent a before
    rw [writer, number] at smaller
    rw [number]
    exact smaller
  · have member : i ∈ s.announced ++ [info] := announced ▸ member
    rcases List.mem_append.mp member with before | last
    · exact (inv.sent i before).trans_le (sent _)
    · obtain rfl := List.mem_singleton.mp last
      rw [number]
      show _ < (t.writers p).sent
      rw [own]
      exact Nat.lt_succ_self _
  · by_cases same : q = p
    · subst same
      rw [show _ = _ from own] at theirs
      cases theirs
    · rw [show _ = _ from others q same] at theirs ⊢
      exact inv.own q i theirs

omit [DecidableEq σ] in
/-- What is in the block is handed over. -/
theorem Inv.read {info : ReadableInfo σ} (inv : Inv conf s) (here : s.dispatcher = .read info) {handed : Bool}
    (locks : Block.Inv conf ({ s with
      dispatcher := .release info
      delivered := if handed then
        s.delivered ++ [⟨info, s.locked info.blockIndex, s.content info.blockIndex⟩]
        else s.delivered } : State σ).view) :
    Inv conf { s with
      dispatcher := .release info
      delivered := if handed then
        s.delivered ++ [⟨info, s.locked info.blockIndex, s.content info.blockIndex⟩] else s.delivered } := by
  have inFlight : s.inFlight = info :: s.queue := by
    rw [State.inFlight, here]
    rfl
  cases handed with
  | false =>
    refine inv.frame locks rfl rfl rfl ?_ (fun _ _ => id) (fun _ _ mine => ⟨mine, rfl⟩) fun _ => le_rfl
    rw [inFlight]
    exact List.sublist_cons_self ..
  | true =>
    have pending : s.Pending info := .inr (inFlight ▸ List.mem_cons_self)
    let delivery : Delivery σ := ⟨info, s.locked info.blockIndex, s.content info.blockIndex⟩
    have announced : (s.delivered ++ [delivery]).map Delivery.info ++ s.queue = s.announced := by
      rw [State.announced, inFlight, List.map_append, List.append_assoc]
      rfl
    have fewer : ∀ i, i ∈ s.queue → i ∈ s.inFlight := fun i queued => inFlight ▸ List.mem_cons_of_mem _ queued
    refine ⟨locks, fun i there => inv.kept i (there.imp_right (fewer i)),
      fun i there => inv.older i (there.imp_right (fewer i)),
      fun q i writes i' there => inv.writing q i writes i' (there.imp_right (fewer i')), fun d member same => ?_, ?_,
      fun i member => ?_, inv.own⟩
    · rcases List.mem_append.mp member with before | last
      · exact inv.delivered d before same
      · obtain rfl := List.mem_singleton.mp last
        exact inv.kept info pending same.symm
    · show ((s.delivered ++ [delivery]).map Delivery.info ++ s.queue).Pairwise Before
      rw [announced]
      exact inv.order
    · have member : i ∈ (s.delivered ++ [delivery]).map Delivery.info ++ s.queue := member
      rw [announced] at member
      exact inv.sent i member

theorem step_inv {e : Event σ} (inv : Inv conf s) (step : (machine σ conf).step s e = some s') : Inv conf s' := by
  have locks := inv.locks_step step
  cases e with
  | transmit p =>
    simp only [machine] at step
    split at step
    · cases step
      exact inv.writer locks (fun i here => by cases here) (fun info mine => by cases mine) le_rfl
    · cases step
  | lock p spurious =>
    simp only [machine, State.lock] at step
    split at step
    · cases step
      exact inv.writer locks (fun i here => by cases here) (fun info mine => by cases mine) le_rfl
    · split at step
      · cases step
        exact inv.locked locks
      · cases step
        exact inv.writer locks (fun i here => by cases here) (fun info mine => by cases mine) le_rfl
    · cases step
  | write p serialized =>
    simp only [machine, State.write] at step
    split at step
    · rename_i index here
      split at step
      · cases step
        refine inv.write here locks (fun i writes => by cases writes) fun info mine => ?_
        cases mine
        exact ⟨rfl, rfl, rfl, rfl⟩
      · cases step
        exact inv.write here locks (fun i writes => by cases writes) fun info mine => by cases mine
    · cases step
  | release p =>
    simp only [machine, State.release] at step
    split at step
    · cases step
      exact inv.writer locks (fun i here => by cases here) (fun info mine => by cases mine) (Nat.le_succ _)
    · rename_i info here
      cases step
      refine inv.writer locks (fun i here => by cases here) (fun i mine => ?_) le_rfl
      rw [here]
      exact ⟨mine, rfl⟩
    · cases step
  | notify p =>
    simp only [machine, State.notify] at step
    split at step
    · rename_i info here
      cases step
      exact inv.notify here locks
    · cases step
  | listen =>
    simp only [machine, State.listen] at step
    split at step
    · rename_i info queue here waiting
      cases step
      refine inv.dispatcher locks ?_
      rw [State.inFlight, here, waiting]
      split
      · exact List.sublist_cons_self ..
      · exact List.Sublist.refl _
    · cases step
  | lockRead spurious =>
    simp only [machine, State.lockRead] at step
    split at step
    · rename_i info tryTimes here
      cases step
      refine inv.dispatcher locks ?_
      rw [State.inFlight, here]
      split
      · exact List.sublist_cons_self ..
      · exact List.Sublist.refl _
    · rename_i info lockNum tryTimes here
      split at step
      · cases step
        refine inv.dispatcher locks ?_
        rw [State.inFlight, here]
        exact List.Sublist.refl _
      · cases step
        refine inv.dispatcher locks ?_
        rw [State.inFlight, here]
        split
        · exact List.sublist_cons_self ..
        · exact List.Sublist.refl _
    · cases step
  | read handed =>
    simp only [machine, State.read] at step
    split at step
    · rename_i info here
      cases step
      exact inv.read here locks
    · cases step
  | releaseRead =>
    simp only [machine, State.releaseRead] at step
    split at step
    · rename_i info here
      cases step
      refine inv.dispatcher locks ?_
      rw [State.inFlight, here]
      exact List.Sublist.refl _
    · cases step

theorem inv_init : Inv conf (machine σ conf).init where
  locks := by
    have view : (machine σ conf).init.view = (Block.machine (Option σ) conf).init :=
      congrArg (Config.mk _) (funext fun t => by cases t <;> rfl)
    rw [view]
    exact Block.inv_init
  kept := by
    rintro info (⟨p, ⟨⟩⟩ | ⟨⟨⟩⟩)
  older := by
    rintro info (⟨p, ⟨⟩⟩ | ⟨⟨⟩⟩)
  writing _ _ here := by cases here
  delivered _ member := by cases member
  order := List.Pairwise.nil
  sent _ member := by cases member
  own _ _ mine := by cases mine

/-- The block was not locked for writing between the write that the notification announces and the read. -/
def Delivery.Fresh (d : Delivery σ) : Prop :=
  d.locked = d.info.locked

instance (d : Delivery σ) : Decidable d.Fresh :=
  inferInstanceAs (Decidable (_ = _))

/-- In every run: what is handed over for a notification is the message that it announces, unless the block was locked
for writing again; of these no message is handed over twice, and those of one writer come in the order in which they
were sent. -/
theorem fresh_delivers (reach : (machine σ conf).Reach s) :
    (∀ d ∈ s.delivered, d.Fresh → d.message = some d.info.announces) ∧
      s.delivered.Pairwise (fun d d' => d.Fresh → d'.Fresh → d.message ≠ d'.message) ∧
      s.delivered.Pairwise (fun d d' => d.Fresh → d'.Fresh → ∀ p n n', d.message = some (p, n) →
        d'.message = some (p, n') → n < n') := by
  have inv : Inv conf s := reach.invariant inv_init fun _ _ _ inv step => step_inv inv step
  have order : s.delivered.Pairwise (fun d d' => d.Fresh → d'.Fresh → ∀ p n n', d.message = some (p, n) →
      d'.message = some (p, n') → n < n') := by
    have announced := List.pairwise_map.mp (List.pairwise_append.mp inv.order).1
    refine announced.imp_of_mem fun {d d'} member member' before fresh fresh' p n n' first second => ?_
    have announces := Option.some.inj ((inv.delivered d member fresh).symm.trans first)
    have announces' := Option.some.inj ((inv.delivered d' member' fresh').symm.trans second)
    have smaller := before (by rw [announces, announces'])
    rw [announces, announces'] at smaller
    exact smaller
  refine ⟨inv.delivered, order.imp_of_mem fun {d d'} member _ before fresh fresh' same => ?_, order⟩
  have message := inv.delivered d member fresh
  exact Nat.lt_irrefl _ (before fresh fresh' _ _ _ message (same ▸ message))

end Invariant

/-- A message is sent. -/
def sends : List (Event Unit) :=
  [.transmit (), .lock () false, .lock () false, .write () true, .release (), .notify ()]

/-- A message is received. -/
def receives : List (Event Unit) :=
  [.listen, .lockRead false, .lockRead false, .read true, .releaseRead]

theorem received_delivers :
    let s := (machine Unit .new).stateAt (sends ++ sends ++ receives ++ receives) 22
    s.delivered.length = 2 ∧ (∀ d ∈ s.delivered, d.Fresh) ∧ ∀ d ∈ s.delivered, d.message = some d.info.announces := by
  have fresh : ∀ d ∈ ((machine Unit .new).stateAt (sends ++ sends ++ receives ++ receives) 22).delivered, d.Fresh := by
    decide
  have reach := Machine.stateAt_reach (M := machine Unit .new) (sends ++ sends ++ receives ++ receives) rfl
  exact ⟨rfl, fresh, fun d member => (fresh_delivers reach).1 d member (fresh d member)⟩

/-- One message more is sent than there are blocks, before the first one is received. -/
def overtaken : List (Event Unit) :=
  (List.replicate 9 sends).flatten ++ (List.replicate 9 receives).flatten

/-- The last message is handed over for the first notification, before all others, and again for its own. -/
theorem overtaken_delivers :
    let s := (machine Unit (.update ShmConf.messageSizeMore)).stateAt overtaken 99
    (machine Unit (.update ShmConf.messageSizeMore)).Reach s ∧
      s.delivered.map (fun d => (d.info.announces.2, d.message.map Prod.snd)) =
        [(0, some 8), (1, some 1), (2, some 2), (3, some 3), (4, some 4), (5, some 5), (6, some 6), (7, some 7),
          (8, some 8)] :=
  ⟨Machine.stateAt_reach overtaken rfl, rfl⟩

end CyberRT.ShmDelivery

import CyberRT.Transport.Segment

namespace CyberRT
open Concur
universe u

def idSize : Nat := 8

/-- `MessageInfo::kSize` -/
def messageInfoKSize : Nat := 2 * idSize + 8

/-- What `ShmTransmitter::Transmit` writes into the buffer of a block, as offsets and lengths: the message, and
its info after it. -/
def transmitWrites (msgSize : Nat) : List (Nat × Nat) :=
  [(0, msgSize), (msgSize, messageInfoKSize)]

namespace ShmConf

/-- The buffer of a block has room for the message and its info. -/
def Fits (conf : ShmConf) (msgSize : Nat) : Prop :=
  msgSize + messageInfoKSize ≤ conf.blockBufSize

theorem Fits.writes {conf : ShmConf} {msgSize : Nat} (fits : conf.Fits msgSize) :
    ∀ w ∈ transmitWrites msgSize, w.1 + w.2 ≤ conf.blockBufSize := by
  intro w written
  unfold Fits at fits
  simp only [transmitWrites, List.mem_cons, List.not_mem_nil, or_false] at written
  rcases written with rfl | rfl
  · dsimp only
    omega
  · exact fits

theorem fits_of_le {conf : ShmConf} {msgSize : Nat} (small : msgSize ≤ conf.ceilingMsgSize) : conf.Fits msgSize := by
  unfold Fits
  rw [conf.bufSize, getBlockBufSize]
  exact Nat.add_le_add small (by decide)

/-- The message and its info fit in the largest buffer. -/
def Sized (msgSize : Nat) : Prop :=
  msgSize + messageInfoKSize ≤ getBlockBufSize messageSizeMore

instance (msgSize : Nat) : Decidable (Sized msgSize) :=
  inferInstanceAs (Decidable (_ ≤ _))

theorem fits_update {msgSize : Nat} (sized : Sized msgSize) : (update msgSize).Fits msgSize := by
  have ceiling := le_getCeilingMessageSize msgSize
  by_cases small : msgSize ≤ messageSizeMore
  · rw [Nat.min_eq_left small] at ceiling
    exact fits_of_le ceiling
  · rw [Nat.min_eq_right (by omega)] at ceiling
    exact sized.trans (Nat.add_le_add_right ceiling messageInfoSize)

end ShmConf

namespace Segment

namespace Caller

def Sized : Caller → Prop
  | .write msgSize | .remapToWrite msgSize | .recreate msgSize => ShmConf.Sized msgSize
  | .read _ | .remapToRead _ => True

/-- The layout with which `Recreate` asks for a new segment. -/
def Requests (conf : ShmConf) : Caller → Prop
  | .recreate msgSize => conf = .update msgSize
  | .write _ | .remapToWrite _ | .read _ | .remapToRead _ => True

/-- `Recreate` does not check again whether the message fits. -/
def Accepts (conf : ShmConf) : Caller → Prop
  | .recreate msgSize => conf.Fits msgSize
  | .write _ | .remapToWrite _ | .read _ | .remapToRead _ => True

theorem Requests.accepts {conf : ShmConf} {caller : Caller} (requests : caller.Requests conf) (sized : caller.Sized) :
    caller.Accepts conf := by
  cases caller with
  | recreate msgSize =>
    obtain rfl := requests
    exact ShmConf.fits_update sized
  | write | remapToWrite | read | remapToRead => trivial

end Caller

/-- The object that this segment has created and whose `State` it has yet to read back. -/
def creating (g : Segment) : Option Nat :=
  match g.pc with
  | .openOrCreate _ (.ftruncate o) | .openOrCreate _ (.mmap o) | .openOrCreate _ (.newState o) => some o
  | .openOrCreate _ .load => g.state
  | _ => none

/-- A write is of a message that fits in the largest buffer; and where `Recreate` opens the segment of
another process, that one has room for the message. -/
def Allowed (shm : Shm) (g : Segment) : Input → Prop
  | .acquireBlockToWrite msgSize => ShmConf.Sized msgSize
  | .next _ =>
    match g.pc, g.state with
    | .openOnly (.recreate msgSize) .load, some o => (ShmConf.update (shm.objects o).ceilingMsgSize).Fits msgSize
    | _, _ => True
  | _ => True

/-- The buffers are laid out as the configuration says. -/
def Filled (g : Segment) : Prop :=
  g.blockBufs = some g.conf

/-- What holds of a segment at each point of `OpenOrCreate`. -/
def AtCreate (shm : Shm) (g : Segment) (caller : Caller) : CreatePc → Prop
  | .shmOpen => g.init = false ∧ caller.Sized ∧ caller.Requests g.conf
  | .ftruncate o | .mmap o | .newState o => o < shm.fresh ∧ g.init = false ∧ caller.Sized ∧ caller.Requests g.conf
  | .shmUnlink => g.init = false ∧ caller.Sized
  | .load =>
    (∃ o, g.state = some o ∧ o < shm.fresh ∧ (shm.objects o).ceilingMsgSize = g.conf.ceilingMsgSize) ∧
      caller.Sized ∧ caller.Requests g.conf
  | .newBlocks => caller.Sized ∧ caller.Accepts g.conf
  | .increaseReferenceCounts => g.Filled ∧ caller.Sized ∧ caller.Accepts g.conf

/-- The same for `OpenOnly`. -/
def AtOpen (g : Segment) (caller : Caller) : OpenPc → Prop
  | .shmOpen | .fstat _ | .mmap _ _ | .load => g.init = false ∧ caller.Sized
  | .increaseReferenceCounts => g.Filled ∧ caller.Sized ∧ caller.Accepts g.conf

/-- The same for `AcquireBlockToWrite`. -/
def AtWrite (g : Segment) (msgSize : Nat) : WritePc → Prop
  | .needRemap => g.Filled ∧ ShmConf.Sized msgSize
  | .setNeedRemap => ShmConf.Sized msgSize
  | .remove => g.init = false ∧ ShmConf.Sized msgSize
  | .fetchAddSeq => g.Filled ∧ g.conf.Fits msgSize
  | .tryLockForWrite index | .acquired index => g.Filled ∧ g.conf.Fits msgSize ∧ index < g.conf.blockNum

def At (shm : Shm) (g : Segment) : Prop :=
  match g.pc with
  | .idle => g.init = true → g.Filled
  | .openOrCreate caller pc => AtCreate shm g caller pc
  | .openOnly caller pc => AtOpen g caller pc
  | .write msgSize pc => AtWrite g msgSize pc
  | .read _ _ => g.Filled
  | .destroy _ | .destroyed | .crashed => True

def Apart (g h : Segment) : Prop :=
  ∀ o, g.creating = some o → h.creating ≠ some o

theorem at_remapped {shm : Shm} {g : Segment} {msgSize : Nat} {result : Bool} (sized : ShmConf.Sized msgSize)
    (filled : result = true ∨ g.init = true → g.Filled) : At shm (g.remapped msgSize result) := by
  unfold remapped
  split
  · exact sized
  · rename_i small
    split
    · rename_i succeeded
      exact ⟨filled (.inl succeeded), ShmConf.fits_of_le (not_lt.mp small)⟩
    · exact fun isInit => filled (.inr isInit)

theorem at_checkIndex {shm : Shm} {g : Segment} {index : Nat} (filled : g.Filled) : At shm (g.checkIndex index) := by
  unfold checkIndex
  split
  · exact fun _ => filled
  · exact filled

theorem at_opened {shm : Shm} {g : Segment} {caller : Caller} (filled : g.Filled) (sized : caller.Sized)
    (accepts : caller.Accepts g.conf) : At shm (g.opened caller true) := by
  cases caller with
  | write msgSize => exact ⟨filled, sized⟩
  | remapToWrite msgSize => exact at_remapped sized fun _ => filled
  | recreate msgSize => exact ⟨filled, accepts⟩
  | read index => exact at_checkIndex filled
  | remapToRead index => exact filled

theorem at_failed {shm : Shm} {g : Segment} {caller : Caller} (closed : g.init = false) (sized : caller.Sized) :
    At shm (g.opened caller false) := by
  have idle : At shm (g.goto .idle) := fun isInit => absurd (closed.symm.trans isInit) nofun
  cases caller with
  | remapToWrite msgSize =>
    exact at_remapped sized fun either => either.elim nofun fun isInit => absurd (closed.symm.trans isInit) nofun
  | write | recreate | read | remapToRead => exact idle

/-- A rule for accesses: the step that crashes, and the one that finds the object that is mapped. -/
theorem access_rule {shm : Shm} {g : Segment} {f : Nat → ShmObject → Shm × Segment} {P : Shm × Segment → Prop}
    (null : P (shm, g.goto .crashed)) (mapped : ∀ o, g.state = some o → P (f o (shm.objects o))) :
    P (access shm g f) := by
  unfold access
  split
  · exact null
  · rename_i o found
    exact mapped o found

/-- An access keeps the assertion if it reaches it from the object that is mapped. -/
theorem at_access {shm : Shm} {g : Segment} {f : Nat → ShmObject → Shm × Segment}
    (mapped : ∀ o, g.state = some o → At (f o (shm.objects o)).1 (f o (shm.objects o)).2) :
    At (access shm g f).1 (access shm g f).2 :=
  access_rule (P := fun r => At r.1 r.2) trivial mapped

theorem at_attach {shm : Shm} {g : Segment} {caller : Caller}
    (here : g.Filled ∧ caller.Sized ∧ caller.Accepts g.conf) : At (attach shm g caller).1 (attach shm g caller).2 :=
  at_access fun _ _ => at_opened here.1 here.2.1 here.2.2

theorem openOrCreate_at {shm : Shm} {g : Segment} {caller : Caller} {pc : CreatePc} (here : AtCreate shm g caller pc)
    (ok : Bool) : At (openOrCreate shm g caller ok pc).1 (openOrCreate shm g caller ok pc).2 := by
  unfold openOrCreate
  cases pc with
  | shmOpen =>
    obtain ⟨closed, sized, requests⟩ := here
    dsimp only
    split
    · split
      · exact ⟨closed, sized⟩
      · exact ⟨Nat.lt_succ_self _, closed, sized, requests⟩
    · exact at_failed closed sized
  | ftruncate o =>
    dsimp only
    split
    · exact here
    · exact at_failed here.2.1 here.2.2.1
  | mmap o =>
    dsimp only
    split
    · exact here
    · exact ⟨here.2.1, here.2.2.1⟩
  | shmUnlink => exact at_failed here.1 here.2
  | newState o =>
    refine ⟨⟨o, rfl, here.1, ?_⟩, here.2.2⟩
    simp only [Shm.set, Function.update_self]
  | load =>
    obtain ⟨⟨o, mapped, _, ceiling⟩, sized, requests⟩ := here
    refine at_access fun o' found => ?_
    obtain rfl := Option.some.inj (mapped.symm.trans found)
    -- Nobody else has written the ceiling, so the layout is still the requested one.
    rw [ceiling, ShmConf.update_ceilingMsgSize]
    exact ⟨sized, requests.accepts sized⟩
  | newBlocks => exact at_access fun _ _ => ⟨rfl, here⟩
  | increaseReferenceCounts => exact at_attach here

theorem openOnly_at {shm : Shm} {g : Segment} {caller : Caller} {pc : OpenPc} (here : AtOpen g caller pc)
    (loads : ∀ o, pc = .load → g.state = some o → caller.Accepts (.update (shm.objects o).ceilingMsgSize)) (ok : Bool) :
    At (openOnly shm g caller ok pc).1 (openOnly shm g caller ok pc).2 := by
  unfold openOnly
  cases pc with
  | shmOpen =>
    dsimp only
    split
    · dsimp only
      split
      · exact here
      · exact at_failed here.1 here.2
    · exact at_failed here.1 here.2
  | fstat o | mmap o size =>
    dsimp only
    split
    · exact here
    · exact at_failed here.1 here.2
  | load => exact at_access fun o found => ⟨rfl, here.2, loads o rfl found⟩
  | increaseReferenceCounts => exact at_attach here

theorem acquireBlockToWrite_at {shm : Shm} {g : Segment} {msgSize : Nat} {pc : WritePc} (here : AtWrite g msgSize pc)
    {ok : Bool} {r : Shm × Segment} (step : acquireBlockToWrite shm g msgSize ok pc = some r) : At r.1 r.2 := by
  cases pc with
  | needRemap =>
    cases step
    refine at_access fun o _ => ?_
    dsimp only
    split
    · exact ⟨rfl, here.2⟩
    · exact at_remapped here.2 fun _ => here.1
  | setNeedRemap =>
    cases step
    exact at_access fun _ _ => ⟨rfl, here⟩
  | remove =>
    cases step
    exact ⟨here.1, here.2, rfl⟩
  | fetchAddSeq =>
    cases step
    exact at_access fun _ _ => ⟨here.1, here.2, Nat.mod_lt _ g.conf.blockNum_pos⟩
  | tryLockForWrite index =>
    cases step
    refine at_access fun o _ => ?_
    split
    · exact here
    · exact ⟨here.1, here.2.1⟩
  | acquired index => cases step

theorem acquireBlockToRead_at {shm : Shm} {g : Segment} {index : Nat} {pc : ReadPc} (here : g.Filled) {ok : Bool}
    {r : Shm × Segment} (step : acquireBlockToRead shm g index ok pc = some r) : At r.1 r.2 := by
  cases pc with
  | needRemap =>
    cases step
    refine at_access fun o _ => ?_
    dsimp only
    split
    · exact ⟨rfl, trivial⟩
    · exact here
  | tryLockForRead =>
    cases step
    refine at_access fun o _ => ?_
    split
    · exact here
    · exact fun _ => here
  | acquired => cases step

theorem destroy_at {shm : Shm} {g : Segment} {ok : Bool} (pc : DestroyPc) :
    At (destroy shm g ok pc).1 (destroy shm g ok pc).2 := by
  cases pc with
  | decreaseReferenceCounts => exact at_access fun _ _ => trivial
  | referenceCounts =>
    refine at_access fun o _ => ?_
    dsimp only
    split <;> trivial
  | remove => trivial

theorem release_at {shm : Shm} {g : Segment} (filled : g.Filled) (index : Nat) (diff : Int) :
    At (release shm g index diff).1 (release shm g index diff).2 := by
  unfold release
  split
  · exact fun _ => filled
  · exact at_access fun _ _ => fun _ => filled

theorem next_at {shm : Shm} {g : Segment} {ok : Bool} (here : At shm g) (allowed : Allowed shm g (.next ok))
    {r : Shm × Segment} (step : next shm g ok = some r) : At r.1 r.2 := by
  unfold At at here
  unfold next at step
  cases pcIs : g.pc with
  | openOrCreate caller pc =>
    simp only [pcIs] at here step
    cases step
    exact openOrCreate_at here ok
  | openOnly caller pc =>
    simp only [pcIs] at here step
    cases step
    refine openOnly_at here (fun o loads found => ?_) ok
    subst loads
    simp only [Allowed, pcIs, found] at allowed
    cases caller with
    | recreate msgSize => exact allowed
    | write | remapToWrite | read | remapToRead => trivial
  | write msgSize pc =>
    simp only [pcIs] at here step
    exact acquireBlockToWrite_at here step
  | read index pc =>
    simp only [pcIs] at here step
    exact acquireBlockToRead_at here step
  | destroy pc =>
    simp only [pcIs] at step
    cases step
    exact destroy_at pc
  | idle | destroyed | crashed =>
    simp only [pcIs] at step
    cases step

theorem act_at {shm : Shm} {g : Segment} {c : Input} (here : At shm g) (allowed : Allowed shm g c)
    {r : Shm × Segment} (step : act shm g c = some r) : At r.1 r.2 := by
  unfold act at step
  cases c with
  | acquireBlockToWrite msgSize =>
    dsimp only at step
    split at step
    · rename_i idle
      simp only [At, idle] at here
      cases step
      dsimp only
      split
      · rename_i isInit
        exact ⟨here isInit, allowed⟩
      · rename_i closed
        exact ⟨Bool.eq_false_iff.mpr closed, allowed, trivial⟩
    · cases step
  | releaseWrittenBlock =>
    dsimp only at step
    split at step
    · rename_i msgSize index acquired
      simp only [At, acquired, AtWrite] at here
      cases step
      exact release_at here.1 index 1
    · cases step
  | acquireBlockToRead index =>
    dsimp only at step
    split at step
    · rename_i idle
      simp only [At, idle] at here
      cases step
      dsimp only
      split
      · rename_i isInit
        exact at_checkIndex (here isInit)
      · rename_i closed
        exact ⟨Bool.eq_false_iff.mpr closed, trivial⟩
    · cases step
  | releaseReadBlock =>
    dsimp only at step
    split at step
    · rename_i index acquired
      simp only [At, acquired] at here
      cases step
      exact release_at here index (-1)
    · cases step
  | destroy =>
    dsimp only at step
    split at step
    · cases step
      dsimp only
      split <;> trivial
    · cases step
  | next ok => exact next_at here allowed step

end Segment

end CyberRT

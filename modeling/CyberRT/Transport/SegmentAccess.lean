import CyberRT.Transport.SegmentCapacityRuns

namespace CyberRT.Segment
open Concur
universe u

/-- A process with its segment and the blocks that it has acquired and not yet released. -/
structure Holder where
  segment : Segment
  written : List Nat
  read : List Nat

namespace Holder

inductive Input
  | segment (c : Segment.Input)
  | keep
  | releaseWrittenBlock (index : Nat)
  | releaseReadBlock (index : Nat)

def new : Holder :=
  ⟨.new, [], []⟩

/-- A step of the segment; the return with a block that is released later, after any other calls; or the release of
such a block. -/
def act (shm : Shm) (h : Holder) : Input → Option (Shm × Holder)
  | .segment c => (Segment.act shm h.segment c).map fun r => (r.1, { h with segment := r.2 })
  | .keep =>
    match h.segment.pc with
    | .write _ (.acquired index) =>
      some (shm, { h with segment := h.segment.goto .idle, written := index :: h.written })
    | .read index .acquired => some (shm, { h with segment := h.segment.goto .idle, read := index :: h.read })
    | _ => none
  | .releaseWrittenBlock index =>
    match h.segment.pc with
    | .idle =>
      if index ∈ h.written then
        let (shm, segment) := release shm h.segment index 1
        some (shm, { h with segment, written := h.written.erase index })
      else none
    | _ => none
  | .releaseReadBlock index =>
    match h.segment.pc with
    | .idle =>
      if index ∈ h.read then
        let (shm, segment) := release shm h.segment index (-1)
        some (shm, { h with segment, read := h.read.erase index })
      else none
    | _ => none

/-- Any number of segments of one channel, of this and other processes, with blocks that they hold. -/
def machine (σ : Type u) [DecidableEq σ] : Machine (Config σ Shm Holder) (σ × Input) :=
  Config.machine .empty (fun _ => .new) act

end Holder

/-- The next step of the call goes through `state_`. -/
def TouchesState (g : Segment) : Prop :=
  match g.pc with
  | .openOrCreate _ .load | .openOrCreate _ .newBlocks | .openOrCreate _ .increaseReferenceCounts
  | .openOnly _ .load | .openOnly _ .increaseReferenceCounts
  | .write _ .needRemap | .write _ .setNeedRemap | .write _ .fetchAddSeq | .read _ .needRemap => True
  | _ => False

/-- The block whose lock the call takes next, or whose address and buffer it has just returned. -/
def touchesBlock (g : Segment) : Option Nat :=
  match g.pc with
  | .write _ (.tryLockForWrite index) | .write _ (.acquired index) => some index
  | .read index .tryLockForRead | .read index .acquired => some index
  | _ => none

/-- A system call by which `OpenOnly` fails. -/
def OpenFails (shm : Shm) (ok : Bool) : OpenPc → Prop
  | .shmOpen => ok = false ∨ shm.name = none
  | .fstat _ => ok = false
  | .mmap _ size => ok = false ∨ size = 0
  | .load | .increaseReferenceCounts => False

instance (shm : Shm) (ok : Bool) (pc : OpenPc) : Decidable (OpenFails shm ok pc) :=
  match pc with
  | .shmOpen | .mmap _ _ => inferInstanceAs (Decidable (_ ∨ _))
  | .fstat _ => inferInstanceAs (Decidable (_ = _))
  | .load | .increaseReferenceCounts => inferInstanceAs (Decidable False)

/-- The segment that a read is remapped to has the block that was announced; and a write whose remap fails is of a
message for which the layout it had before was large enough. -/
def Remaps (shm : Shm) (g : Segment) : Input → Prop
  | .next ok =>
    match g.pc with
    | .openOnly (.remapToRead index) .load =>
      ∀ o ∈ g.state, index < (ShmConf.update (shm.objects o).ceilingMsgSize).blockNum
    | .openOnly (.remapToWrite msgSize) pc => OpenFails shm ok pc → msgSize ≤ g.conf.ceilingMsgSize
    | _ => True
  | _ => True

/-- The `State` whose ceiling `OpenOnly` reads is constructed. -/
def LoadsConstructed (shm : Shm) (g : Segment) : Input → Prop
  | .next _ =>
    match g.pc with
    | .openOnly _ .load => ∀ o ∈ g.state, (shm.objects o).ceilingMsgSize ≠ 0
    | _ => True
  | _ => True

/-- The condition on a step. Only what depends on the object that is mapped asks for constructed states. -/
def Holder.Allowed (built : Prop) (shm : Shm) (h : Holder) : Holder.Input → Prop
  | .segment c => Remaps shm h.segment c ∧ (built → LoadsConstructed shm h.segment c)
  | .keep | .releaseWrittenBlock _ | .releaseReadBlock _ => True

section
variable {built : Prop} {shm shm' : Shm} {g g' h : Segment}

/-- The pointers and the buffers are set as the configuration says; and it is that of the object mapped. -/
def Placed (built : Prop) (shm : Shm) (g : Segment) : Prop :=
  g.Filled ∧ ∃ o, g.state = some o ∧
    (built → (shm.objects o).ceilingMsgSize ≠ 0 ∧ g.conf = .update (shm.objects o).ceilingMsgSize)

theorem Placed.mapped (placed : Placed built shm g) : g.state.isSome := by
  obtain ⟨-, o, mapped, -⟩ := placed
  exact Option.isSome_iff_exists.mpr ⟨o, mapped⟩

/-- A read that is remapped goes on with its index. -/
def Caller.Has (conf : ShmConf) : Caller → Prop
  | .remapToRead index => index < conf.blockNum
  | .write _ | .remapToWrite _ | .recreate _ | .read _ => True

/-- The calls that create. -/
def Caller.Creates : Caller → Prop
  | .write _ | .recreate _ => True
  | .remapToWrite _ | .read _ | .remapToRead _ => False

theorem Caller.Creates.has {caller : Caller} (creates : caller.Creates) (conf : ShmConf) : caller.Has conf := by
  cases caller with
  | write | recreate => trivial
  | remapToWrite | read | remapToRead => exact creates.elim

/-- What holds of a segment at each point of a call. -/
def PlacedAt (built : Prop) (shm : Shm) (g : Segment) : Prop :=
  match g.pc with
  | .idle => g.init = true → Placed built shm g
  | .openOrCreate caller .shmOpen | .openOrCreate caller .shmUnlink => caller.Creates ∧ g.init = false
  | .openOrCreate caller (.ftruncate o) | .openOrCreate caller (.mmap o) | .openOrCreate caller (.newState o) =>
    caller.Creates ∧ g.init = false ∧ o < shm.fresh ∧ (shm.objects o).ceilingMsgSize = 0
  | .openOrCreate caller .load => caller.Creates ∧ ∃ o, g.state = some o ∧ (shm.objects o).ceilingMsgSize ≠ 0
  | .openOrCreate caller .newBlocks =>
    caller.Creates ∧ ∃ o, g.state = some o ∧ (shm.objects o).ceilingMsgSize ≠ 0 ∧
      g.conf = .update (shm.objects o).ceilingMsgSize
  | .openOrCreate caller .increaseReferenceCounts => caller.Creates ∧ Placed built shm g
  | .openOnly _ .shmOpen | .openOnly _ (.fstat _) | .openOnly _ (.mmap _ _) => g.init = false
  | .openOnly _ .load => g.state.isSome
  | .openOnly caller .increaseReferenceCounts => caller.Has g.conf ∧ Placed built shm g
  | .write _ .needRemap | .write _ .setNeedRemap | .write _ .fetchAddSeq => Placed built shm g
  | .write _ .remove => g.init = false
  | .write _ (.tryLockForWrite index) | .write _ (.acquired index) => index < g.conf.blockNum ∧ Placed built shm g
  | .read index _ => index < g.conf.blockNum ∧ Placed built shm g
  | .destroy _ | .destroyed | .crashed => True

/-- No object is constructed before it is created. -/
def Unused (shm : Shm) : Prop :=
  ∀ o, shm.fresh ≤ o → (shm.objects o).ceilingMsgSize = 0

theorem ceilingMsgSize_ne_zero (conf : ShmConf) : conf.ceilingMsgSize ≠ 0 := by
  intro zero
  have ceiling := conf.ceiling
  rw [zero] at ceiling
  exact absurd ceiling (by decide)

theorem Placed.same (placed : Placed built shm g) (init : g'.state = g.state) (conf : g'.conf = g.conf)
    (bufs : g'.blockBufs = g.blockBufs) (same : SameCeilings shm shm') : Placed built shm' g' := by
  obtain ⟨filled, o, mapped, agrees⟩ := placed
  refine ⟨bufs.trans (filled.trans (congrArg some conf.symm)), o, init.trans mapped, fun known => ?_⟩
  rw [same.2, conf]
  exact agrees known

/-- A step that leaves the segment as it is, but for its call, and the ceilings. -/
theorem Placed.goto (placed : Placed built shm g) (same : SameCeilings shm shm') (pc : Pc) :
    Placed built shm' (g.goto pc) :=
  placed.same rfl rfl rfl same

theorem placedAt_remapped {msgSize : Nat} {result : Bool} (placed : result = true → Placed built shm g)
    (closed : result = false → g.init = false ∧ msgSize ≤ g.conf.ceilingMsgSize) :
    PlacedAt built shm (g.remapped msgSize result) := by
  unfold remapped
  split
  · rename_i large
    cases result with
    | true => exact (placed rfl).goto (sameCeilings_refl shm) _
    | false => exact absurd (closed rfl).2 (Nat.not_le_of_lt large)
  · split
    · rename_i succeeded
      exact (placed succeeded).goto (sameCeilings_refl shm) _
    · rename_i failed
      intro isInit
      exact absurd ((closed (by simpa using failed)).1.symm.trans isInit) nofun

theorem placedAt_checkIndex {index : Nat} (placed : Placed built shm g) : PlacedAt built shm (g.checkIndex index) := by
  unfold checkIndex
  split
  · exact fun _ => placed.goto (sameCeilings_refl shm) _
  · rename_i inside
    exact ⟨Nat.lt_of_not_le inside, placed.goto (sameCeilings_refl shm) _⟩

theorem placedAt_opened {caller : Caller} (placed : Placed built shm g) (has : caller.Has g.conf) :
    PlacedAt built shm (g.opened caller true) := by
  have goto := placed.goto (sameCeilings_refl shm)
  cases caller with
  | write msgSize | recreate msgSize => exact goto _
  | remapToWrite msgSize => exact placedAt_remapped (fun _ => placed) nofun
  | read index => exact placedAt_checkIndex placed
  | remapToRead index => exact ⟨has, goto _⟩

theorem placedAt_failed {caller : Caller} (closed : g.init = false)
    (small : ∀ msgSize, caller = .remapToWrite msgSize → msgSize ≤ g.conf.ceilingMsgSize) :
    PlacedAt built shm (g.opened caller false) := by
  have idle : PlacedAt built shm (g.goto .idle) := fun isInit => absurd (closed.symm.trans isInit) nofun
  cases caller with
  | remapToWrite msgSize => exact placedAt_remapped nofun fun _ => ⟨closed, small msgSize rfl⟩
  | write | recreate | read | remapToRead => exact idle

theorem placedAt_access {f : Nat → ShmObject → Shm × Segment}
    (mapped : ∀ o, g.state = some o → PlacedAt built (f o (shm.objects o)).1 (f o (shm.objects o)).2) :
    PlacedAt built (access shm g f).1 (access shm g f).2 :=
  access_rule (P := fun r => PlacedAt built r.1 r.2) trivial mapped

theorem placedAt_attach {caller : Caller} (placed : Placed built shm g) (has : caller.Has g.conf) :
    PlacedAt built (attach shm g caller).1 (attach shm g caller).2 := by
  refine placedAt_access fun o _ => placedAt_opened ?_ has
  exact placed.same rfl rfl rfl (sameCeilings_set rfl)

theorem openOrCreate_placedAt {caller : Caller} {pc : CreatePc} (pcIs : g.pc = .openOrCreate caller pc)
    (here : PlacedAt built shm g) (ok : Bool) :
    PlacedAt built (openOrCreate shm g caller ok pc).1 (openOrCreate shm g caller ok pc).2 := by
  unfold PlacedAt at here
  rw [pcIs] at here
  have failed {shm' : Shm} (creates : caller.Creates) (closed : g.init = false) :
      PlacedAt built shm' (g.opened caller false) := by
    refine placedAt_failed closed ?_
    rintro msgSize rfl
    exact creates.elim
  unfold openOrCreate
  cases pc with
  | shmOpen =>
    obtain ⟨creates, closed⟩ := here
    dsimp only
    split
    · split
      · exact closed
      · refine ⟨creates, closed, Nat.lt_succ_self _, ?_⟩
        simp only [Shm.create, Shm.set, Function.update_self]
        rfl
    · exact failed creates closed
  | ftruncate o =>
    obtain ⟨creates, closed, old, zero⟩ := here
    dsimp only
    split
    · refine ⟨creates, closed, old, ?_⟩
      simpa only [Shm.set, Function.update_self] using zero
    · exact failed creates closed
  | mmap o =>
    dsimp only
    split
    · exact here
    · exact ⟨here.1, here.2.1⟩
  | shmUnlink => exact failed here.1 here.2
  | newState o =>
    refine ⟨here.1, o, rfl, ?_⟩
    simp only [Shm.set, Function.update_self]
    exact ceilingMsgSize_ne_zero g.conf
  | load =>
    obtain ⟨creates, o, mapped, built⟩ := here
    refine placedAt_access fun o' found => ?_
    obtain rfl := Option.some.inj (mapped.symm.trans found)
    exact ⟨creates, o, mapped, built, rfl⟩
  | newBlocks =>
    obtain ⟨creates, o, mapped, built, conf⟩ := here
    refine placedAt_access fun o' found => ?_
    obtain rfl := Option.some.inj (mapped.symm.trans found)
    refine ⟨creates, rfl, o, mapped, fun _ => ?_⟩
    simp only [Shm.set, Function.update_self]
    exact ⟨built, conf⟩
  | increaseReferenceCounts => exact placedAt_attach here.2 (here.1.has _)

theorem openOnly_placedAt {caller : Caller} {pc : OpenPc} {ok : Bool} (pcIs : g.pc = .openOnly caller pc)
    (here : PlacedAt built shm g) (remaps : Remaps shm g (.next ok))
    (constructed : built → LoadsConstructed shm g (.next ok)) :
    PlacedAt built (openOnly shm g caller ok pc).1 (openOnly shm g caller ok pc).2 := by
  unfold PlacedAt at here
  rw [pcIs] at here
  have failed (closed : g.init = false) (fails : OpenFails shm ok pc) : PlacedAt built shm (g.opened caller false) := by
    refine placedAt_failed closed ?_
    rintro msgSize rfl
    simp only [Remaps, pcIs] at remaps
    cases pc <;> exact remaps fails
  unfold openOnly
  cases pc with
  | shmOpen =>
    dsimp only
    split
    · dsimp only
      split
      · exact here
      · rename_i no
        exact failed here (.inl (by simpa using no))
    · rename_i unbound
      exact failed here (.inr unbound)
  | fstat o =>
    dsimp only
    split
    · exact here
    · rename_i no
      exact failed here (by simpa [OpenFails] using no)
  | mmap o size =>
    dsimp only
    split
    · exact rfl
    · rename_i no
      refine failed here ?_
      by_cases empty : size = 0
      · exact .inr empty
      · exact .inl (by simpa [empty] using no)
  | load =>
    refine placedAt_access fun o found => ⟨?_, rfl, o, found, fun known => ⟨?_, rfl⟩⟩
    · cases caller with
      | remapToRead index =>
        simp only [Remaps, pcIs] at remaps
        exact remaps o found
      | write | remapToWrite | recreate | read => trivial
    · have made := constructed known
      simp only [LoadsConstructed, pcIs] at made
      exact made o found
  | increaseReferenceCounts => exact placedAt_attach here.2 here.1

theorem acquireBlockToWrite_placedAt {msgSize : Nat} {pc : WritePc} {ok : Bool} {r : Shm × Segment}
    (pcIs : g.pc = .write msgSize pc) (here : PlacedAt built shm g)
    (step : acquireBlockToWrite shm g msgSize ok pc = some r) : PlacedAt built r.1 r.2 := by
  unfold PlacedAt at here
  rw [pcIs] at here
  cases pc with
  | needRemap =>
    cases step
    refine placedAt_access fun o _ => ?_
    dsimp only
    split
    · exact rfl
    · exact placedAt_remapped (fun _ => here) nofun
  | setNeedRemap =>
    cases step
    exact placedAt_access fun _ _ => rfl
  | remove =>
    cases step
    exact ⟨trivial, here⟩
  | fetchAddSeq =>
    cases step
    exact placedAt_access fun _ _ => ⟨Nat.mod_lt _ g.conf.blockNum_pos, here.goto (sameCeilings_set (by rfl)) _⟩
  | tryLockForWrite index =>
    cases step
    refine placedAt_access fun o _ => ?_
    split
    · exact ⟨here.1, here.2.goto (sameCeilings_set (by rfl)) _⟩
    · exact here.2.goto (sameCeilings_refl shm) _
  | acquired index => cases step

theorem acquireBlockToRead_placedAt {index : Nat} {pc : ReadPc} {ok : Bool} {r : Shm × Segment}
    (pcIs : g.pc = .read index pc) (here : PlacedAt built shm g)
    (step : acquireBlockToRead shm g index ok pc = some r) : PlacedAt built r.1 r.2 := by
  unfold PlacedAt at here
  rw [pcIs] at here
  cases pc with
  | needRemap =>
    cases step
    refine placedAt_access fun o _ => ?_
    dsimp only
    split
    · exact rfl
    · exact ⟨here.1, here.2.goto (sameCeilings_refl shm) _⟩
  | tryLockForRead =>
    cases step
    refine placedAt_access fun o _ => ?_
    split
    · exact ⟨here.1, here.2.goto (sameCeilings_set (by rfl)) _⟩
    · exact fun _ => here.2.goto (sameCeilings_refl shm) _
  | acquired => cases step

theorem destroy_placedAt {ok : Bool} (pc : DestroyPc) :
    PlacedAt built (destroy shm g ok pc).1 (destroy shm g ok pc).2 := by
  cases pc with
  | decreaseReferenceCounts => exact placedAt_access fun _ _ => trivial
  | referenceCounts =>
    refine placedAt_access fun o _ => ?_
    dsimp only
    split <;> trivial
  | remove => trivial

theorem release_placedAt (placed : g.init = true → Placed built shm g) (index : Nat) (diff : Int) :
    PlacedAt built (release shm g index diff).1 (release shm g index diff).2 := by
  unfold release
  split
  · exact fun isInit => (placed isInit).goto (sameCeilings_refl shm) _
  · exact placedAt_access fun _ _ => fun isInit => (placed isInit).goto (sameCeilings_set (by rfl)) _

theorem next_placedAt {ok : Bool} (here : PlacedAt built shm g) (remaps : Remaps shm g (.next ok))
    (constructed : built → LoadsConstructed shm g (.next ok)) {r : Shm × Segment} (step : next shm g ok = some r) :
    PlacedAt built r.1 r.2 := by
  unfold next at step
  split at step
  · rename_i caller pc pcIs
    cases step
    exact openOrCreate_placedAt pcIs here ok
  · rename_i caller pc pcIs
    cases step
    exact openOnly_placedAt pcIs here remaps constructed
  · rename_i msgSize pc pcIs
    exact acquireBlockToWrite_placedAt pcIs here step
  · rename_i index pc pcIs
    exact acquireBlockToRead_placedAt pcIs here step
  · cases step
    exact destroy_placedAt _
  all_goals cases step

theorem act_placedAt {c : Input} (here : PlacedAt built shm g) (remaps : Remaps shm g c)
    (constructed : built → LoadsConstructed shm g c) {r : Shm × Segment} (step : act shm g c = some r) :
    PlacedAt built r.1 r.2 := by
  unfold act at step
  cases c with
  | next ok => exact next_placedAt here remaps constructed step
  | acquireBlockToWrite msgSize =>
    dsimp only at step
    split at step
    · rename_i idle
      simp only [PlacedAt, idle] at here
      cases step
      dsimp only
      split
      · rename_i isInit
        exact (here isInit).goto (sameCeilings_refl shm) _
      · rename_i closed
        exact ⟨trivial, Bool.eq_false_iff.mpr closed⟩
    · cases step
  | acquireBlockToRead index =>
    dsimp only at step
    split at step
    · rename_i idle
      simp only [PlacedAt, idle] at here
      cases step
      dsimp only
      split
      · rename_i isInit
        exact placedAt_checkIndex (here isInit)
      · rename_i closed
        exact Bool.eq_false_iff.mpr closed
    · cases step
  | releaseWrittenBlock =>
    dsimp only at step
    split at step
    · rename_i msgSize index acquired
      simp only [PlacedAt, acquired] at here
      cases step
      exact release_placedAt (fun _ => here.2) index 1
    · cases step
  | releaseReadBlock =>
    dsimp only at step
    split at step
    · rename_i index acquired
      simp only [PlacedAt, acquired] at here
      cases step
      exact release_placedAt (fun _ => here.2) index (-1)
    · cases step
  | destroy =>
    dsimp only at step
    split at step
    · cases step
      dsimp only
      split <;> trivial
    · cases step

theorem PlacedAt.creating_lt (here : PlacedAt built shm g) (unused : Unused shm) {o : Nat}
    (creates : g.creating = some o) : o < shm.fresh := by
  unfold creating at creates
  unfold PlacedAt at here
  split at creates
  · rename_i pcIs
    cases creates
    rw [pcIs] at here
    exact here.2.2.1
  · rename_i pcIs
    cases creates
    rw [pcIs] at here
    exact here.2.2.1
  · rename_i pcIs
    cases creates
    rw [pcIs] at here
    exact here.2.2.1
  · rename_i pcIs
    rw [pcIs] at here
    obtain ⟨-, o', mapped, made⟩ := here
    cases creates.symm.trans mapped
    exact Nat.lt_of_not_le fun later => made (unused o later)
  · cases creates

/-- The segment that creates an object writes its ceiling in one step only. -/
theorem sameCeilings_or_newState {c : Input} {o : Nat} (creates : g.creating = some o)
    (step : act shm g c = some (shm', g')) :
    SameCeilings shm shm' ∨ ∃ caller, g.pc = .openOrCreate caller (.newState o) := by
  have next {caller : Caller} {pc : CreatePc} (pcIs : g.pc = .openOrCreate caller pc) :
      ∃ ok, openOrCreate shm g caller ok pc = (shm', g') := by
    unfold act at step
    cases c with
    | next ok =>
      simp only [Segment.next, pcIs] at step
      exact ⟨ok, Option.some.inj step⟩
    | acquireBlockToWrite | releaseWrittenBlock | acquireBlockToRead | releaseReadBlock | destroy =>
      simp only [pcIs] at step
      cases step
  unfold creating at creates
  split at creates
  · rename_i pcIs
    obtain ⟨ok, moved⟩ := next pcIs
    left
    unfold openOrCreate at moved
    dsimp only at moved
    split at moved
    · cases moved
      exact sameCeilings_set rfl
    · cases moved
      exact sameCeilings_refl shm
  · rename_i pcIs
    obtain ⟨ok, moved⟩ := next pcIs
    cases moved
    exact .inl (sameCeilings_refl shm)
  · rename_i caller o' pcIs
    cases creates
    exact .inr ⟨caller, pcIs⟩
  · rename_i pcIs
    obtain ⟨ok, moved⟩ := next pcIs
    left
    unfold openOrCreate access at moved
    dsimp only at moved
    split at moved <;>
    · cases moved
      exact sameCeilings_refl shm
  · cases creates

/-- What holds of a segment depends on the ceilings that are written, and on that of the object it creates. -/
theorem PlacedAt.frame (there : PlacedAt built shm h) (fresh : shm.fresh ≤ shm'.fresh)
    (same : ∀ o, (shm'.objects o).ceilingMsgSize = (shm.objects o).ceilingMsgSize ∨
      (shm.objects o).ceilingMsgSize = 0 ∧ h.creating ≠ some o) : PlacedAt built shm' h := by
  have kept {o : Nat} (made : (shm.objects o).ceilingMsgSize ≠ 0) :
      (shm'.objects o).ceilingMsgSize = (shm.objects o).ceilingMsgSize :=
    (same o).resolve_right fun unmade => made unmade.1
  have placed (old : Placed built shm h) : Placed built shm' h := by
    obtain ⟨filled, o, mapped, agrees⟩ := old
    refine ⟨filled, o, mapped, fun known => ?_⟩
    rw [kept (agrees known).1]
    exact agrees known
  unfold PlacedAt at there ⊢
  cases pcIs : h.pc with
  | idle =>
    rw [pcIs] at there
    exact fun isInit => placed (there isInit)
  | openOrCreate caller pc =>
    rw [pcIs] at there
    cases pc with
    | shmOpen | shmUnlink => exact there
    | ftruncate o | mmap o | newState o =>
      obtain ⟨creates, closed, old, zero⟩ := there
      have own : h.creating = some o := by rw [creating, pcIs]
      exact ⟨creates, closed, old.trans_le fresh, ((same o).resolve_right fun other => other.2 own).trans zero⟩
    | load =>
      obtain ⟨creates, o, mapped, made⟩ := there
      exact ⟨creates, o, mapped, by rwa [kept made]⟩
    | newBlocks =>
      obtain ⟨creates, o, mapped, made, conf⟩ := there
      refine ⟨creates, o, mapped, ?_⟩
      rw [kept made]
      exact ⟨made, conf⟩
    | increaseReferenceCounts => exact ⟨there.1, placed there.2⟩
  | openOnly caller pc =>
    rw [pcIs] at there
    cases pc with
    | shmOpen | fstat | mmap | load => exact there
    | increaseReferenceCounts => exact ⟨there.1, placed there.2⟩
  | write msgSize pc =>
    rw [pcIs] at there
    cases pc with
    | needRemap | setNeedRemap | fetchAddSeq => exact placed there
    | remove => exact there
    | tryLockForWrite | acquired => exact ⟨there.1, placed there.2⟩
  | read index pc =>
    rw [pcIs] at there
    exact ⟨there.1, placed there.2⟩
  | destroy | destroyed | crashed => trivial

/-- A step of one segment, with what it does to the shared memory and to the others. -/
theorem placedAt_effect (unused : Unused shm) (here : PlacedAt built shm g) (effect : Effect shm g (shm', g'))
    (writes : ∀ o, g.creating = some o →
      SameCeilings shm shm' ∨ ∃ caller, g.pc = .openOrCreate caller (.newState o)) :
    Unused shm' ∧ ∀ h, PlacedAt built shm h → Apart g h → PlacedAt built shm' h ∧ Apart g' h := by
  cases effect with
  | quiet same creates =>
    refine ⟨fun o later => (same.2 o).trans (unused o (same.1 ▸ later)), fun h there apart => ⟨?_, ?_⟩⟩
    · exact there.frame same.1.ge fun o => .inl (same.2 o)
    · intro o mine
      rcases creates with none | before
      · cases none.symm.trans mine
      · exact apart o (before.symm.trans mine)
  | created creates =>
    refine ⟨fun o later => ?_, fun h there apart => ⟨?_, fun o mine theirs => ?_⟩⟩
    · have other : o ≠ shm.fresh := (Nat.lt_of_succ_le later).ne'
      simp only [Shm.create, Shm.set, Function.update_of_ne other]
      exact unused o (Nat.le_of_succ_le later)
    · refine there.frame (Nat.le_succ _) fun o => ?_
      by_cases new : o = shm.fresh
      · subst new
        exact .inr ⟨unused _ le_rfl, fun theirs => Nat.lt_irrefl _ (there.creating_lt unused theirs)⟩
      · left
        simp only [Shm.create, Shm.set, Function.update_of_ne new]
    · have bound := there.creating_lt unused theirs
      cases creates.symm.trans mine
      exact bound.ne rfl
  | @constructed _ o object before after =>
    have old := here.creating_lt unused before
    refine ⟨fun o' later => ?_, fun h there apart => ⟨there.frame le_rfl fun o' => ?_, fun o' mine => ?_⟩⟩
    · have other : o' ≠ o := (old.trans_le later).ne'
      simp only [Shm.set, Function.update_of_ne other]
      exact unused o' later
    · by_cases own : o' = o
      · subst own
        rcases writes o' before with same | ⟨caller, pcIs⟩
        · exact .inl (same.2 o')
        · unfold PlacedAt at here
          rw [pcIs] at here
          exact .inr ⟨here.2.2.2, apart o' before⟩
      · left
        simp only [Shm.set, Function.update_of_ne own]
    · cases after.symm.trans mine
      exact apart o before

namespace Holder
variable {k k' : Holder}

theorem act_placedAt {c : Input} (here : PlacedAt built shm k.segment) (allowed : Allowed built shm k c)
    (step : act shm k c = some (shm', k')) : PlacedAt built shm' k'.segment := by
  unfold act at step
  cases c with
  | segment c =>
    obtain ⟨r, moved, same⟩ := Option.map_eq_some_iff.mp step
    cases same
    exact Segment.act_placedAt here allowed.1 allowed.2 moved
  | keep =>
    dsimp only at step
    unfold PlacedAt at here
    split at step
    · rename_i acquired
      rw [acquired] at here
      cases step
      exact fun _ => here.2.goto (sameCeilings_refl shm) _
    · rename_i acquired
      rw [acquired] at here
      cases step
      exact fun _ => here.2.goto (sameCeilings_refl shm) _
    · cases step
  | releaseWrittenBlock index | releaseReadBlock index =>
    dsimp only at step
    unfold PlacedAt at here
    split at step
    · rename_i idle
      rw [idle] at here
      obtain ⟨-, same⟩ := Option.ite_none_right_eq_some.mp step
      cases same
      exact release_placedAt here index _
    · cases step

theorem act_effect {c : Input} (step : act shm k c = some (shm', k')) :
    Effect shm k.segment (shm', k'.segment) ∧
      ∀ o, k.segment.creating = some o →
        SameCeilings shm shm' ∨ ∃ caller, k.segment.pc = .openOrCreate caller (.newState o) := by
  unfold act at step
  cases c with
  | segment c =>
    obtain ⟨r, moved, same⟩ := Option.map_eq_some_iff.mp step
    cases same
    exact ⟨Segment.act_effect moved, fun o creates => sameCeilings_or_newState creates moved⟩
  | keep =>
    dsimp only at step
    split at step
    · cases step
      exact ⟨.quiet (sameCeilings_refl shm) (.inl rfl), fun _ _ => .inl (sameCeilings_refl shm)⟩
    · cases step
      exact ⟨.quiet (sameCeilings_refl shm) (.inl rfl), fun _ _ => .inl (sameCeilings_refl shm)⟩
    · cases step
  | releaseWrittenBlock index | releaseReadBlock index =>
    dsimp only at step
    split at step
    · rename_i idle
      obtain ⟨-, same⟩ := Option.ite_none_right_eq_some.mp step
      cases same
      refine ⟨release_effect, fun o creates => ?_⟩
      rw [creating, idle] at creates
      cases creates
    · cases step

theorem outline (built : Prop) : Config.Outline (Config.guarded (Allowed built) act) Unused
    (fun shm k => PlacedAt built shm k.segment) (fun k l => Apart k.segment l.segment) where
  own := by
    intro shm k c shm' k' unused here step
    obtain ⟨allowed, step⟩ := Config.guarded_eq_some.mp step
    have effect := act_effect step
    exact ⟨(placedAt_effect unused here effect.1 effect.2).1, act_placedAt here allowed step⟩
  other := by
    intro shm k c shm' k' l unused here there apart _ step
    have effect := act_effect (Config.guarded_eq_some.mp step).2
    obtain ⟨kept, apart⟩ := (placedAt_effect unused here effect.1 effect.2).2 l.segment there apart
    exact ⟨kept, apart, apart.symm⟩

/-- In a run in which every remap of a read ends in a segment that has the block, and every remap of a write that fails
is of a message for which the old layout was large enough, no call follows a null pointer, and every block it touches is
one of the mapping with which it touches it. If moreover no `State` is read before it is constructed, the layout is
that of the object that is mapped. -/
theorem touches_inside {built : Prop} {σ : Type u} [DecidableEq σ] {s : Config σ Shm Holder}
    (reach : (machine σ).ReachWhen (fun s e => Allowed built s.shared (s.thread e.1) e.2) s) (t : σ) :
    (TouchesState (s.thread t).segment → (s.thread t).segment.state.isSome) ∧
      ∀ index, touchesBlock (s.thread t).segment = some index →
        ∃ o, (s.thread t).segment.state = some o ∧
          (s.thread t).segment.blockBufs = some (s.thread t).segment.conf ∧
          index < (s.thread t).segment.conf.blockNum ∧
          (built → (s.thread t).segment.conf = .update (s.shared.objects o).ceilingMsgSize) := by
  have base : Config.Holds Unused (fun shm k => PlacedAt built shm k.segment)
      (fun k l => Apart k.segment l.segment) (⟨.empty, fun _ => .new⟩ : Config σ Shm Holder) :=
    ⟨fun _ _ => rfl, fun _ => nofun, fun _ _ _ => nofun⟩
  have here := ((outline built).reachWhen base reach).thread t
  unfold PlacedAt at here
  constructor
  · intro touches
    unfold TouchesState at touches
    split at touches <;> rename_i pcIs <;> try exact touches.elim
    all_goals rw [pcIs] at here
    · obtain ⟨-, o, found, -⟩ := here
      exact Option.isSome_iff_exists.mpr ⟨o, found⟩
    · obtain ⟨-, o, found, -⟩ := here
      exact Option.isSome_iff_exists.mpr ⟨o, found⟩
    · exact here.2.mapped
    · exact here
    · exact here.2.mapped
    · exact here.mapped
    · exact here.mapped
    · exact here.mapped
    · exact here.2.mapped
  · intro index touches
    unfold touchesBlock at touches
    split at touches <;> try cases touches
    all_goals
      rename_i pcIs
      rw [pcIs] at here
      obtain ⟨inside, filled, o, found, agrees⟩ := here
      exact ⟨o, found, filled, inside, fun known => (agrees known).2⟩

/-- A process takes the next `n` steps of its call, whose system calls all succeed. -/
def steps {σ : Type u} (t : σ) (n : Nat) : List (σ × Input) :=
  List.replicate n (t, .segment (.next true))

/-- A message is written and its block kept, and another process reads block 5. -/
def writtenAndRead : List (Bool × Input) :=
  (true, .segment (.acquireBlockToWrite 1)) :: steps true 10 ++
    [(true, .keep), (false, .segment (.acquireBlockToRead 5))] ++ steps false 7

theorem writtenAndRead_inside :
    let g := ((machine Bool).stateAt writtenAndRead 20).thread false |>.segment
    touchesBlock g = some 5 ∧ ∃ o, g.state = some o ∧ 5 < g.conf.blockNum := by
  have meets : (machine Bool).Meets (fun s e => Allowed True s.shared (s.thread e.1) e.2) (machine Bool).init
      writtenAndRead := by
    iterate 11 refine ⟨⟨trivial, fun _ => trivial⟩, ?_⟩
    refine ⟨trivial, ?_⟩
    iterate 4 refine ⟨⟨trivial, fun _ => trivial⟩, ?_⟩
    refine ⟨⟨trivial, ?_⟩, ?_⟩
    · rintro - o ⟨⟩
      exact ceilingMsgSize_ne_zero .new
    · iterate 3 refine ⟨⟨trivial, fun _ => trivial⟩, ?_⟩
      trivial
  have reach := Machine.stateAt_reachWhen writtenAndRead meets rfl
  have touches : touchesBlock (((machine Bool).stateAt writtenAndRead 20).thread false).segment = some 5 := rfl
  obtain ⟨o, found, -, inside, -⟩ := (touches_inside reach false).2 5 touches
  exact ⟨touches, o, found, inside⟩

/-- Block 511 of the first segment is written and read; the writer goes on to a segment of 8 blocks, and a notification
of block 511 comes again. -/
def outgrown : List (Bool × Input) :=
  (true, .segment (.acquireBlockToWrite 1)) :: steps true 10 ++ [(true, .segment .releaseWrittenBlock)] ++
    (false, .segment (.acquireBlockToRead 511)) :: steps false 7 ++ [(false, .segment .releaseReadBlock)] ++
    (true, .segment (.acquireBlockToWrite 20000000)) :: steps true 12 ++
    (false, .segment (.acquireBlockToRead 511)) :: steps false 6

theorem outgrown_outside :
    ¬ ∀ s, (machine Bool).Reach s → ∀ t index, touchesBlock (s.thread t).segment = some index →
      index < (s.thread t).segment.conf.blockNum := by
  intro always
  have reach := Machine.stateAt_reach (M := machine Bool) outgrown rfl
  have inside := always _ reach false 511 rfl
  exact absurd inside (by decide)

/-- The segment is recreated for a larger message; another writer of such a message fails to open the new one. -/
def lostMapping : List (Bool × Input) :=
  (true, .segment (.acquireBlockToWrite 1)) :: steps true 10 ++ [(true, .segment .releaseWrittenBlock)] ++
    (false, .segment (.acquireBlockToWrite 1)) :: steps false 9 ++ [(false, .segment .releaseWrittenBlock)] ++
    (true, .segment (.acquireBlockToWrite 20000)) :: steps true 12 ++
    [(false, .segment (.acquireBlockToWrite 20000)), (false, .segment (.next true)), (false, .segment (.next false))]

theorem lostMapping_null :
    let g := (((machine Bool).stateAt lostMapping 39).thread false).segment
    (machine Bool).Reach ((machine Bool).stateAt lostMapping 39) ∧ TouchesState g ∧ g.state = none :=
  ⟨Machine.stateAt_reach lostMapping rfl, trivial, rfl⟩

end Holder

end

end CyberRT.Segment

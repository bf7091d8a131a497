import CyberRT.Transport.SegmentCapacity

namespace CyberRT.Segment
open Concur
universe u

/-- A step leaves the ceilings of all objects as they are. -/
def SameCeilings (shm shm' : Shm) : Prop :=
  shm'.fresh = shm.fresh ∧ ∀ o, (shm'.objects o).ceilingMsgSize = (shm.objects o).ceilingMsgSize

theorem sameCeilings_refl (shm : Shm) : SameCeilings shm shm :=
  ⟨rfl, fun _ => rfl⟩

theorem sameCeilings_set {shm : Shm} {o : Nat} {object : ShmObject}
    (same : object.ceilingMsgSize = (shm.objects o).ceilingMsgSize) : SameCeilings shm (shm.set o object) := by
  refine ⟨rfl, fun o' => ?_⟩
  by_cases here : o' = o
  · subst here
    simpa only [Shm.set, Function.update_self] using same
  · simp only [Shm.set, Function.update_of_ne here]

/-- What a step of a segment does to the others: only the segment that has created an object writes its
ceiling. -/
inductive Effect (shm : Shm) (g : Segment) : Shm × Segment → Prop
  | quiet {shm' : Shm} {g' : Segment} : SameCeilings shm shm' → (g'.creating = none ∨ g'.creating = g.creating) →
      Effect shm g (shm', g')
  | created {g' : Segment} : g'.creating = some shm.fresh → Effect shm g (shm.create, g')
  | constructed {g' : Segment} {o : Nat} (object : ShmObject) : g.creating = some o → g'.creating = some o →
      Effect shm g (shm.set o object, g')

theorem creating_remapped (g : Segment) (msgSize : Nat) (result : Bool) :
    (g.remapped msgSize result).creating = none := by
  unfold remapped
  split
  · rfl
  · split <;> rfl

theorem creating_checkIndex (g : Segment) (index : Nat) : (g.checkIndex index).creating = none := by
  unfold checkIndex
  split <;> rfl

theorem creating_opened (g : Segment) (caller : Caller) (result : Bool) : (g.opened caller result).creating = none := by
  cases caller with
  | remapToWrite msgSize => exact creating_remapped g msgSize result
  | read index =>
    cases result with
    | true => exact creating_checkIndex g index
    | false => rfl
  | write | recreate | remapToRead => cases result <;> rfl

theorem effect_access {shm : Shm} {g : Segment} {f : Nat → ShmObject → Shm × Segment}
    (mapped : ∀ o, SameCeilings shm (f o (shm.objects o)).1 ∧ (f o (shm.objects o)).2.creating = none) :
    Effect shm g (access shm g f) :=
  access_rule (.quiet (sameCeilings_refl shm) (.inl rfl)) fun o _ => .quiet (mapped o).1 (.inl (mapped o).2)

theorem effect_attach {shm : Shm} {g : Segment} {caller : Caller} : Effect shm g (attach shm g caller) :=
  effect_access fun _ => ⟨sameCeilings_set rfl, creating_opened ..⟩

theorem effect_failed {shm : Shm} {g : Segment} {caller : Caller} : Effect shm g (shm, g.opened caller false) :=
  .quiet (sameCeilings_refl shm) (.inl (creating_opened ..))

theorem openOrCreate_effect {shm : Shm} {g : Segment} {caller : Caller} {pc : CreatePc}
    (pcIs : g.pc = .openOrCreate caller pc) (ok : Bool) : Effect shm g (openOrCreate shm g caller ok pc) := by
  have same {o : Nat} (creates : g.creating = some o) {pc' : CreatePc}
      (next : (g.goto (.openOrCreate caller pc')).creating = some o) {shm' : Shm} (keeps : SameCeilings shm shm') :
      Effect shm g (shm', g.goto (.openOrCreate caller pc')) :=
    .quiet keeps (.inr (next.trans creates.symm))
  unfold openOrCreate
  cases pc with
  | shmOpen =>
    dsimp only
    split
    · split
      · exact .quiet (sameCeilings_refl shm) (.inl rfl)
      · exact .created rfl
    · exact effect_failed
  | ftruncate o =>
    dsimp only
    split
    · exact same (by rw [creating, pcIs]) rfl (sameCeilings_set rfl)
    · exact effect_failed
  | mmap o =>
    dsimp only
    split
    · exact same (by rw [creating, pcIs]) rfl (sameCeilings_refl shm)
    · exact .quiet (sameCeilings_refl shm) (.inl rfl)
  | shmUnlink => exact .quiet ⟨rfl, fun _ => rfl⟩ (.inl (creating_opened ..))
  | newState o => exact .constructed _ (by rw [creating, pcIs]) rfl
  | load => exact effect_access fun _ => ⟨sameCeilings_refl shm, rfl⟩
  | newBlocks => exact effect_access fun _ => ⟨sameCeilings_set rfl, rfl⟩
  | increaseReferenceCounts => exact effect_attach

theorem openOnly_effect {shm : Shm} {g : Segment} (caller : Caller) (ok : Bool) (pc : OpenPc) :
    Effect shm g (openOnly shm g caller ok pc) := by
  have quiet {g' : Segment} (none : g'.creating = none) : Effect shm g (shm, g') :=
    .quiet (sameCeilings_refl shm) (.inl none)
  unfold openOnly
  cases pc with
  | shmOpen =>
    dsimp only
    split
    · split
      · exact quiet rfl
      · exact effect_failed
    · exact effect_failed
  | fstat o | mmap o size =>
    dsimp only
    split
    · exact quiet rfl
    · exact effect_failed
  | load => exact effect_access fun _ => ⟨sameCeilings_refl shm, rfl⟩
  | increaseReferenceCounts => exact effect_attach

theorem acquireBlockToWrite_effect {shm : Shm} {g : Segment} {msgSize : Nat} {ok : Bool} {pc : WritePc}
    {r : Shm × Segment} (step : acquireBlockToWrite shm g msgSize ok pc = some r) : Effect shm g r := by
  cases pc with
  | needRemap =>
    cases step
    refine effect_access fun _ => ⟨sameCeilings_refl shm, ?_⟩
    dsimp only
    split
    · rfl
    · exact creating_remapped ..
  | setNeedRemap | fetchAddSeq =>
    cases step
    exact effect_access fun _ => ⟨sameCeilings_set rfl, rfl⟩
  | remove =>
    cases step
    exact .quiet ⟨rfl, fun _ => rfl⟩ (.inl rfl)
  | tryLockForWrite index =>
    cases step
    refine effect_access fun _ => ?_
    split
    · exact ⟨sameCeilings_set rfl, rfl⟩
    · exact ⟨sameCeilings_refl shm, rfl⟩
  | acquired index => cases step

theorem acquireBlockToRead_effect {shm : Shm} {g : Segment} {index : Nat} {ok : Bool} {pc : ReadPc}
    {r : Shm × Segment} (step : acquireBlockToRead shm g index ok pc = some r) : Effect shm g r := by
  cases pc with
  | needRemap =>
    cases step
    refine effect_access fun _ => ⟨sameCeilings_refl shm, ?_⟩
    dsimp only
    split <;> rfl
  | tryLockForRead =>
    cases step
    refine effect_access fun _ => ?_
    split
    · exact ⟨sameCeilings_set rfl, rfl⟩
    · exact ⟨sameCeilings_refl shm, rfl⟩
  | acquired => cases step

theorem destroy_effect {shm : Shm} {g : Segment} {ok : Bool} (pc : DestroyPc) : Effect shm g (destroy shm g ok pc) := by
  unfold destroy
  cases pc with
  | decreaseReferenceCounts => exact effect_access fun _ => ⟨sameCeilings_set rfl, rfl⟩
  | referenceCounts =>
    refine effect_access fun _ => ⟨sameCeilings_refl shm, ?_⟩
    dsimp only
    split <;> rfl
  | remove => exact .quiet ⟨rfl, fun _ => rfl⟩ (.inl rfl)

theorem release_effect {shm : Shm} {g : Segment} {index : Nat} {diff : Int} :
    Effect shm g (release shm g index diff) := by
  unfold release
  split
  · exact .quiet (sameCeilings_refl shm) (.inl rfl)
  · exact effect_access fun _ => ⟨sameCeilings_set rfl, rfl⟩

theorem next_effect {shm : Shm} {g : Segment} {ok : Bool} {r : Shm × Segment} (step : next shm g ok = some r) :
    Effect shm g r := by
  unfold next at step
  split at step
  · rename_i caller pc pcIs
    cases step
    exact openOrCreate_effect pcIs ok
  · cases step
    exact openOnly_effect ..
  · exact acquireBlockToWrite_effect step
  · exact acquireBlockToRead_effect step
  · cases step
    exact destroy_effect _
  all_goals cases step

theorem act_effect {shm : Shm} {g : Segment} {c : Input} {r : Shm × Segment} (step : act shm g c = some r) :
    Effect shm g r := by
  have quiet {g' : Segment} (none : g'.creating = none) : Effect shm g (shm, g') :=
    .quiet (sameCeilings_refl shm) (.inl none)
  unfold act at step
  cases c with
  | acquireBlockToWrite msgSize =>
    dsimp only at step
    split at step
    · cases step
      split <;> exact quiet rfl
    · cases step
  | acquireBlockToRead index =>
    dsimp only at step
    split at step
    · cases step
      split
      · exact quiet (creating_checkIndex ..)
      · exact quiet rfl
    · cases step
  | releaseWrittenBlock | releaseReadBlock =>
    dsimp only at step
    split at step
    · cases step
      exact release_effect
    · cases step
  | destroy =>
    dsimp only at step
    split at step
    · cases step
      split <;> exact quiet rfl
    · cases step
  | next ok => exact next_effect step

theorem Apart.symm {g h : Segment} (apart : Apart g h) : Apart h g :=
  fun o theirs mine => apart o mine theirs

theorem creating_lt {shm : Shm} {g : Segment} (here : At shm g) {o : Nat} (creates : g.creating = some o) :
    o < shm.fresh := by
  unfold creating at creates
  unfold At at here
  split at creates
  · rename_i pcIs
    cases creates
    rw [pcIs] at here
    exact here.1
  · rename_i pcIs
    cases creates
    rw [pcIs] at here
    exact here.1
  · rename_i pcIs
    cases creates
    rw [pcIs] at here
    exact here.1
  · rename_i pcIs
    rw [pcIs] at here
    obtain ⟨⟨o', mapped, bound, _⟩, _⟩ := here
    cases creates.symm.trans mapped
    exact bound
  · cases creates

/-- The assertion of a segment reads of the shared memory only the ceiling of the object that it creates. -/
theorem At.frame {shm shm' : Shm} {g : Segment} (here : At shm g) (fresh : shm.fresh ≤ shm'.fresh)
    (same : ∀ o, g.creating = some o → (shm'.objects o).ceilingMsgSize = (shm.objects o).ceilingMsgSize) :
    At shm' g := by
  unfold At at here ⊢
  cases pcIs : g.pc with
  | openOrCreate caller pc =>
    simp only [pcIs] at here ⊢
    cases pc with
    | ftruncate o | mmap o | newState o => exact ⟨here.1.trans_le fresh, here.2⟩
    | load =>
      obtain ⟨⟨o, mapped, bound, ceiling⟩, rest⟩ := here
      have creates : g.creating = some o := by rw [creating, pcIs, mapped]
      exact ⟨⟨o, mapped, bound.trans_le fresh, (same o creates).trans ceiling⟩, rest⟩
    | shmOpen | shmUnlink | newBlocks | increaseReferenceCounts => exact here
  | idle | openOnly | write | read =>
    simp only [pcIs] at here ⊢
    exact here
  | destroy | destroyed | crashed => trivial

/-- A step of one segment keeps what holds of another one. -/
theorem act_other {shm shm' : Shm} {g g' h : Segment} {c : Input} (there : At shm h) (apart : Apart g h)
    (step : act shm g c = some (shm', g')) : At shm' h ∧ Apart g' h := by
  cases act_effect step with
  | quiet same creates =>
    refine ⟨there.frame same.1.ge fun o _ => same.2 o, fun o mine => ?_⟩
    rcases creates with none | before
    · cases none.symm.trans mine
    · exact apart o (before.symm.trans mine)
  | created creates =>
    refine ⟨there.frame (Nat.le_succ _) fun o theirs => ?_, fun o mine theirs => ?_⟩
    · simp only [Shm.create, Shm.set, Function.update_of_ne (creating_lt there theirs).ne]
    · have bound := creating_lt there theirs
      cases creates.symm.trans mine
      exact bound.ne rfl
  | @constructed _ o object before after =>
    refine ⟨there.frame le_rfl fun o' theirs => ?_, fun o' mine => ?_⟩
    · have other : o' ≠ o := by
        rintro rfl
        exact apart o' before theirs
      simp only [Shm.set, Function.update_of_ne other]
    · cases after.symm.trans mine
      exact apart o before

theorem outline : Config.Outline (Config.guarded Allowed act) (fun _ => True) At Apart where
  own := by
    intro shm g c shm' g' _ here step
    obtain ⟨allowed, step⟩ := Config.guarded_eq_some.mp step
    exact ⟨trivial, act_at here allowed step⟩
  other := by
    intro shm g c shm' g' h _ _ there apart _ step
    obtain ⟨kept, apart⟩ := act_other there apart (Config.guarded_eq_some.mp step).2
    exact ⟨kept, apart, apart.symm⟩

/-- In a run in which every message fits in the largest buffer, and no `Recreate` ends in a segment of another
process that is too small, a block that was acquired for a message has room for all that `Transmit` writes. -/
theorem acquired_fits {σ : Type u} [DecidableEq σ] {s : Config σ Shm Segment}
    (reach : (machine σ).ReachWhen (fun s e => Allowed s.shared (s.thread e.1) e.2) s) {t : σ} {msgSize index : Nat}
    (acquired : (s.thread t).pc = .write msgSize (.acquired index)) :
    ∃ conf, (s.thread t).blockBufs = some conf ∧ index < conf.blockNum ∧
      msgSize + messageInfoKSize ≤ conf.blockBufSize ∧
      ∀ w ∈ transmitWrites msgSize, w.1 + w.2 ≤ conf.blockBufSize := by
  have base : Config.Holds (fun _ => True) At Apart (⟨.empty, fun _ => .new⟩ : Config σ Shm Segment) :=
    ⟨trivial, fun _ => nofun, fun _ _ _ => nofun⟩
  have holds := (outline.reachWhen base reach).thread t
  simp only [At, acquired, AtWrite] at holds
  obtain ⟨filled, fits, bound⟩ := holds
  exact ⟨(s.thread t).conf, filled, bound, fits, fits.writes⟩

/-- A thread takes the next `n` steps of its operation, whose system calls all succeed. -/
def steps {σ : Type u} (t : σ) (n : Nat) : List (σ × Input) :=
  List.replicate n (t, .next true)

/-- A segment is created and recreated for a message that does not fit. -/
def growTo (msgSize : Nat) : List (Unit × Input) :=
  ((), .acquireBlockToWrite msgSize) :: steps () 19

theorem growTo_fits :
    let s := (machine Unit).stateAt (growTo 20000) 20
    (machine Unit).ReachWhen (fun s e => Allowed s.shared (s.thread e.1) e.2) s ∧
      (s.thread ()).pc = .write 20000 (.acquired 0) ∧
      ∃ conf, (s.thread ()).blockBufs = some conf ∧ 20000 + messageInfoKSize ≤ conf.blockBufSize := by
  intro s
  have meets : (machine Unit).Meets (fun s e => Allowed s.shared (s.thread e.1) e.2) (machine Unit).init
      (growTo 20000) :=
    ⟨(by decide : ShmConf.Sized 20000), trivial, trivial, trivial, trivial, trivial, trivial, trivial, trivial, trivial,
      trivial, trivial, trivial, trivial, trivial, trivial, trivial, trivial, trivial, trivial, trivial⟩
  have reach := Machine.stateAt_reachWhen (growTo 20000) meets rfl
  have acquired : (s.thread ()).pc = .write 20000 (.acquired 0) := rfl
  obtain ⟨conf, filled, _, fits, _⟩ := acquired_fits reach acquired
  exact ⟨reach, acquired, conf, filled, fits⟩

/-- A message that fits in no buffer is given the largest one. -/
theorem growTo_overruns :
    let msgSize := ShmConf.messageSizeMore + 1001
    let s := (machine Unit).stateAt (growTo msgSize) 20
    (machine Unit).Reach s ∧ (s.thread ()).pc = .write msgSize (.acquired 0) ∧
      ∃ conf, (s.thread ()).blockBufs = some conf ∧ conf.blockBufSize < msgSize + messageInfoKSize :=
  ⟨Machine.stateAt_reach (growTo _) rfl, rfl, _, rfl, by decide⟩

/-- While the first writer recreates the segment, a second one creates it for a small message. -/
def raced : List (Bool × Input) :=
  (false, .acquireBlockToWrite 20000) :: steps false 10 ++
    (true, .acquireBlockToWrite 1) :: steps true 7 ++ steps false 8

/-- The first one is given a buffer of the second one's size. -/
theorem raced_overruns :
    let s := (machine Bool).stateAt raced 27
    (machine Bool).Reach s ∧ (s.thread false).pc = .write 20000 (.acquired 0) ∧
      ∃ conf, (s.thread false).blockBufs = some conf ∧ conf.blockBufSize < 20000 + messageInfoKSize :=
  ⟨Machine.stateAt_reach raced rfl, rfl, _, rfl, by decide⟩

end CyberRT.Segment

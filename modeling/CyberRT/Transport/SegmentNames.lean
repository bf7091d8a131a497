import Mathlib.Data.Fintype.Basic
import CyberRT.Transport.SegmentCapacity

namespace CyberRT.Segment
open Concur
universe u

namespace Pc

/-- The object that an operation has opened, by its descriptor, and will map. -/
def opening : Pc → Option Nat
  | .openOrCreate _ (.ftruncate o) | .openOrCreate _ (.mmap o) | .openOrCreate _ (.newState o) => some o
  | .openOnly _ (.fstat o) | .openOnly _ (.mmap o _) => some o
  | _ => none

/-- The object that an operation has created and whose `State` it has yet to construct. -/
def constructing : Pc → Option Nat
  | .openOrCreate _ (.ftruncate o) | .openOrCreate _ (.mmap o) | .openOrCreate _ (.newState o) => some o
  | _ => none

theorem opening_of_constructing {pc : Pc} {o : Nat} (constructs : pc.constructing = some o) :
    pc.opening = some o := by
  unfold constructing at constructs
  split at constructs
  · exact constructs
  · exact constructs
  · exact constructs
  · cases constructs

/-- The object that is mapped will not be used again: `Recreate` is about to flag it and to reset, or the segment
is being destroyed. -/
def leaving : Pc → Bool
  | .write _ .setNeedRemap | .destroy _ | .destroyed | .crashed => true
  | _ => false

/-- No `OpenOrCreate`, `OpenOnly`, `Remap`, `Recreate` or `Destroy` is in progress: there is no operation, or a block
has been acquired and not been released. -/
def quiet : Pc → Bool
  | .idle | .write _ (.acquired _) | .read _ .acquired => true
  | _ => false

theorem stays_of_quiet {pc : Pc} (quiet : pc.quiet = true) : pc.leaving = false := by
  unfold Pc.quiet at quiet
  split at quiet
  · rfl
  · rfl
  · rfl
  · cases quiet

end Pc

/-- A segment maps the object or will map it. -/
def Attaches (g : Segment) (o : Nat) : Prop :=
  g.pc.opening = some o ∨ g.state = some o ∧ g.pc.leaving = false

instance (g : Segment) (o : Nat) : Decidable (Attaches g o) :=
  inferInstanceAs (Decidable (_ ∨ _))

/-- The next step is a `shm_unlink` that succeeds. -/
def unlinks (g : Segment) : Input → Bool
  | .next true =>
    match g.pc with
    | .openOrCreate _ .shmUnlink | .write _ .remove | .destroy .remove => true
    | _ => false
  | _ => false

/-- The segment will find out that it has to remap: the flag is set, and it is not about to construct the `State`,
which clears it. -/
def Warned (shm : Shm) (g : Segment) (o : Nat) : Prop :=
  (shm.objects o).needRemap = true ∧ g.pc.constructing ≠ some o

instance (shm : Shm) (g : Segment) (o : Nat) : Decidable (Warned shm g o) :=
  inferInstanceAs (Decidable (_ ∧ _))

/-- What a step does to the name and to the flags. -/
inductive Change (shm : Shm) (g : Segment) (c : Input) : Shm → Prop
  | keeps {shm' : Shm} : shm'.name = shm.name → shm'.fresh = shm.fresh →
      (∀ o, (shm.objects o).needRemap = true → (shm'.objects o).needRemap = true) → Change shm g c shm'
  | created : shm.name = none → Change shm g c shm.create
  | unlinked : g.unlinks c = true → Change shm g c (shm.unlink true)
  | constructed {o : Nat} (object : ShmObject) : g.pc.constructing = some o → Change shm g c (shm.set o object)

/-- What a step does: to the memory, and to what its segment attaches. -/
structure Step (shm : Shm) (g : Segment) (c : Input) (r : Shm × Segment) : Prop where
  change : Change shm g c r.1
  attaches : ∀ o, Attaches r.2 o →
    r.1.name = some o ∨ Attaches g o ∧ (r.2.pc.constructing = some o → g.pc.constructing = some o)
  init : (g.init = true → g.state ≠ none) → r.2.init = true → r.2.state ≠ none

theorem keeps_refl {shm : Shm} {g : Segment} {c : Input} : Change shm g c shm :=
  .keeps rfl rfl fun _ => id

theorem keeps_set {shm : Shm} {g : Segment} {c : Input} {o : Nat} {object : ShmObject}
    (flag : (shm.objects o).needRemap = true → object.needRemap = true) : Change shm g c (shm.set o object) := by
  refine .keeps rfl rfl fun o' flagged => ?_
  by_cases here : o' = o
  · subst here
    simpa only [Shm.set, Function.update_self] using flag flagged
  · simpa only [Shm.set, Function.update_of_ne here] using flagged

/-- A `shm_unlink` that may fail. -/
theorem change_unlink {shm : Shm} {g : Segment} (unlinks : g.unlinks (.next true) = true) (ok : Bool) :
    Change shm g (.next ok) (shm.unlink ok) := by
  cases ok with
  | true => exact .unlinked unlinks
  | false => exact keeps_refl

/-- The operation goes on, or comes to its end, with the object that is mapped and with no other one opened. -/
structure Continues (g g' : Segment) : Prop where
  state : g'.state = g.state
  init : g'.init = g.init
  closed : g'.pc.opening = none

theorem continues_goto (g : Segment) {pc : Pc} (closed : pc.opening = none) : Continues g (g.goto pc) :=
  ⟨rfl, rfl, closed⟩

theorem continues_remapped (g : Segment) (msgSize : Nat) (result : Bool) :
    Continues g (g.remapped msgSize result) := by
  unfold remapped
  split
  · exact continues_goto g rfl
  · split <;> exact continues_goto g rfl

theorem continues_checkIndex (g : Segment) (index : Nat) : Continues g (g.checkIndex index) := by
  unfold checkIndex
  split <;> exact continues_goto g rfl

theorem continues_opened (g : Segment) (caller : Caller) (result : Bool) : Continues g (g.opened caller result) := by
  cases caller with
  | remapToWrite msgSize => exact continues_remapped g msgSize result
  | read index =>
    cases result with
    | true => exact continues_checkIndex g index
    | false => exact continues_goto g rfl
  | write | recreate | remapToRead => cases result <;> exact continues_goto g rfl

variable {shm shm' : Shm} {g g' : Segment} {c : Input}

theorem Continues.step (continues : Continues g g') (change : Change shm g c shm')
    (stays : g'.pc.leaving = false → g.pc.leaving = false) : Step shm g c (shm', g') where
  change := change
  attaches := by
    rintro o (opened | ⟨mapped, here⟩)
    · cases continues.closed.symm.trans opened
    · refine .inr ⟨.inr ⟨continues.state.symm.trans mapped, stays here⟩, fun constructs => ?_⟩
      cases continues.closed.symm.trans (Pc.opening_of_constructing constructs)
  init sound isInit := by
    show g'.state ≠ none
    rw [continues.state]
    exact sound (continues.init.symm.trans isInit)

/-- The object that is mapped stays, and if another one is opened it was open before or is the one with the name. -/
theorem step_goto {pc : Pc} (change : Change shm g c shm') (stays : pc.leaving = false → g.pc.leaving = false)
    (opened : ∀ o, pc.opening = some o → shm'.name = some o ∨
      g.pc.opening = some o ∧ (pc.constructing = some o → g.pc.constructing = some o)) :
    Step shm g c (shm', g.goto pc) where
  change := change
  attaches := by
    rintro o (opens | ⟨mapped, here⟩)
    · exact (opened o opens).imp_right fun before => ⟨.inl before.1, before.2⟩
    · by_cases constructs : pc.constructing = some o
      · exact (opened o (Pc.opening_of_constructing constructs)).imp_right fun before => ⟨.inl before.1, before.2⟩
      · exact .inr ⟨.inr ⟨mapped, stays here⟩, fun constructs' => absurd constructs' constructs⟩
  init sound := sound

theorem step_access {f : Nat → ShmObject → Shm × Segment}
    (mapped : ∀ o, g.state = some o → Step shm g c (f o (shm.objects o))) : Step shm g c (access shm g f) :=
  access_rule (step_goto keeps_refl (fun stays => by cases stays) fun _ opens => by cases opens) mapped

/-- A step of an operation that stays with the object that is mapped. -/
theorem step_next (pc : Pc) (change : Change shm g c shm') (here : g.pc.leaving = false) (closed : pc.opening = none) :
    Step shm g c (shm', g.goto pc) :=
  (continues_goto g closed).step change fun _ => here

theorem step_attach {caller : Caller} (here : g.pc.leaving = false) : Step shm g c (attach shm g caller) := by
  refine step_access fun o mapped => ?_
  have continues := continues_opened { g with init := true } caller true
  have step : Step shm { g with init := true } c (shm, { g with init := true }.opened caller true) :=
    continues.step keeps_refl fun _ => here
  refine ⟨keeps_set id, step.attaches, fun _ _ => ?_⟩
  show ({ g with init := true }.opened caller true).state ≠ none
  rw [continues.state, mapped]
  exact Option.some_ne_none o

theorem step_failed {caller : Caller} (here : g.pc.leaving = false) : Step shm g c (shm, g.opened caller false) :=
  (continues_opened g caller false).step keeps_refl fun _ => here

/-- The segment maps an object that it had opened. -/
theorem step_maps {o : Nat} {pc : Pc} (change : Change shm g c shm') (opens : g.pc.opening = some o)
    (closed : pc.opening = none) : Step shm g c (shm', { g with state := some o, pc := pc }) where
  change := change
  attaches := by
    rintro o' (opens' | ⟨⟨⟩, -⟩)
    · cases closed.symm.trans opens'
    · refine .inr ⟨.inl opens, fun constructs => ?_⟩
      cases closed.symm.trans (Pc.opening_of_constructing constructs)
  init _ _ := Option.some_ne_none o

theorem openOrCreate_step {caller : Caller} {pc : CreatePc} (pcIs : g.pc = .openOrCreate caller pc) (ok : Bool) :
    Step shm g (.next ok) (openOrCreate shm g caller ok pc) := by
  have here : g.pc.leaving = false := by rw [pcIs]; rfl
  unfold openOrCreate
  cases pc with
  | shmOpen =>
    dsimp only
    split
    · split
      · exact step_next _ keeps_refl here rfl
      · rename_i free
        exact step_goto (.created free) (fun _ => here) fun o opens => .inl opens
    · exact step_failed here
  | ftruncate o =>
    dsimp only
    split
    · refine step_goto (keeps_set id) (fun _ => here) fun o' opens => .inr ?_
      rw [pcIs]
      exact ⟨opens, id⟩
    · exact step_failed here
  | mmap o =>
    dsimp only
    split
    · refine step_goto keeps_refl (fun _ => here) fun o' opens => .inr ?_
      rw [pcIs]
      exact ⟨opens, id⟩
    · exact step_next _ keeps_refl here rfl
  | shmUnlink =>
    have unlinks : g.unlinks (.next true) = true := by rw [unlinks, pcIs]
    exact (continues_opened g caller false).step (change_unlink unlinks ok) fun _ => here
  | newState o =>
    refine step_maps (.constructed _ ?_) ?_ rfl
    · rw [pcIs]
      rfl
    · rw [pcIs]
      rfl
  | load => exact step_access fun o _ => Continues.step ⟨rfl, rfl, rfl⟩ keeps_refl fun _ => here
  | newBlocks => exact step_access fun o _ => Continues.step ⟨rfl, rfl, rfl⟩ (keeps_set id) fun _ => here
  | increaseReferenceCounts => exact step_attach here

theorem openOnly_step {caller : Caller} {pc : OpenPc} (pcIs : g.pc = .openOnly caller pc) (ok : Bool) :
    Step shm g (.next ok) (openOnly shm g caller ok pc) := by
  have here : g.pc.leaving = false := by rw [pcIs]; rfl
  unfold openOnly
  cases pc with
  | shmOpen =>
    dsimp only
    split
    · rename_i o bound
      split
      · refine step_goto keeps_refl (fun _ => here) fun o' opens => .inl ?_
        exact bound.trans opens
      · exact step_failed here
    · exact step_failed here
  | fstat o =>
    dsimp only
    split
    · refine step_goto keeps_refl (fun _ => here) fun o' opens => .inr ?_
      rw [pcIs]
      exact ⟨opens, fun constructs => by cases constructs⟩
    · exact step_failed here
  | mmap o size =>
    dsimp only
    split
    · refine step_maps keeps_refl ?_ rfl
      rw [pcIs]
      rfl
    · exact step_failed here
  | load => exact step_access fun o _ => Continues.step ⟨rfl, rfl, rfl⟩ keeps_refl fun _ => here
  | increaseReferenceCounts => exact step_attach here

/-- `Reset`, and the next operation. -/
theorem step_reset {pc : Pc} (change : Change shm g c shm') (closed : pc.opening = none) :
    Step shm g c (shm', g.reset.goto pc) where
  change := change
  attaches := by
    rintro o (opens | ⟨⟨⟩, -⟩)
    cases closed.symm.trans opens
  init _ isInit := by cases isInit

theorem acquireBlockToWrite_step {msgSize : Nat} {pc : WritePc} (pcIs : g.pc = .write msgSize pc) {ok : Bool}
    {r : Shm × Segment} (step : acquireBlockToWrite shm g msgSize ok pc = some r) : Step shm g (.next ok) r := by
  cases pc with
  | needRemap =>
    cases step
    have here : g.pc.leaving = false := by rw [pcIs]; rfl
    refine step_access fun o _ => ?_
    split
    · exact step_reset keeps_refl rfl
    · exact (continues_remapped g msgSize true).step keeps_refl fun _ => here
  | setNeedRemap =>
    cases step
    exact step_access fun o _ => step_reset (keeps_set fun _ => rfl) rfl
  | remove =>
    cases step
    have here : g.pc.leaving = false := by rw [pcIs]; rfl
    have unlinks : g.unlinks (.next true) = true := by rw [unlinks, pcIs]
    exact Continues.step ⟨rfl, rfl, rfl⟩ (change_unlink unlinks ok) fun _ => here
  | fetchAddSeq =>
    cases step
    have here : g.pc.leaving = false := by rw [pcIs]; rfl
    exact step_access fun o _ => step_next _ (keeps_set id) here rfl
  | tryLockForWrite index =>
    cases step
    have here : g.pc.leaving = false := by rw [pcIs]; rfl
    refine step_access fun o _ => ?_
    split
    · exact step_next _ (keeps_set id) here rfl
    · exact step_next _ keeps_refl here rfl
  | acquired index => cases step

theorem acquireBlockToRead_step {index : Nat} {pc : ReadPc} (pcIs : g.pc = .read index pc) {ok : Bool}
    {r : Shm × Segment} (step : acquireBlockToRead shm g index ok pc = some r) : Step shm g (.next ok) r := by
  have here : g.pc.leaving = false := by rw [pcIs]; rfl
  cases pc with
  | needRemap =>
    cases step
    refine step_access fun o _ => ?_
    split
    · exact step_reset keeps_refl rfl
    · exact step_next _ keeps_refl here rfl
  | tryLockForRead =>
    cases step
    refine step_access fun o _ => ?_
    split
    · exact step_next _ (keeps_set id) here rfl
    · exact step_next _ keeps_refl here rfl
  | acquired => cases step

/-- A step of `Destroy`, which does not come back to the object. -/
theorem step_leaves {pc : Pc} (change : Change shm g c shm') (closed : pc.opening = none) (leaves : pc.leaving = true) :
    Step shm g c (shm', g.goto pc) :=
  (continues_goto g closed).step change fun stays => by cases leaves.symm.trans stays

theorem destroy_step {pc : DestroyPc} (pcIs : g.pc = .destroy pc) (ok : Bool) :
    Step shm g (.next ok) (destroy shm g ok pc) := by
  unfold destroy
  cases pc with
  | decreaseReferenceCounts => exact step_access fun o _ => step_leaves (keeps_set id) rfl rfl
  | referenceCounts =>
    refine step_access fun o _ => ?_
    split <;> exact step_leaves keeps_refl rfl rfl
  | remove =>
    have unlinks : g.unlinks (.next true) = true := by rw [unlinks, pcIs]
    exact step_leaves (change_unlink unlinks ok) rfl rfl

theorem release_step {index : Nat} {diff : Int} (here : g.pc.leaving = false) :
    Step shm g c (release shm g index diff) := by
  unfold release
  split
  · exact step_next _ keeps_refl here rfl
  · exact step_access fun o _ => step_next _ (keeps_set id) here rfl

theorem next_step {ok : Bool} {r : Shm × Segment} (step : next shm g ok = some r) : Step shm g (.next ok) r := by
  unfold next at step
  split at step
  · rename_i caller pc pcIs
    cases step
    exact openOrCreate_step pcIs ok
  · rename_i caller pc pcIs
    cases step
    exact openOnly_step pcIs ok
  · rename_i msgSize pc pcIs
    exact acquireBlockToWrite_step pcIs step
  · rename_i index pc pcIs
    exact acquireBlockToRead_step pcIs step
  · rename_i pc pcIs
    cases step
    exact destroy_step pcIs ok
  all_goals cases step

theorem act_step {r : Shm × Segment} (step : act shm g c = some r) : Step shm g c r := by
  unfold act at step
  cases c with
  | acquireBlockToWrite msgSize =>
    dsimp only at step
    split at step
    · rename_i pcIs
      have here : g.pc.leaving = false := by rw [pcIs]; rfl
      cases step
      split <;> exact step_next _ keeps_refl here rfl
    · cases step
  | acquireBlockToRead index =>
    dsimp only at step
    split at step
    · rename_i pcIs
      have here : g.pc.leaving = false := by rw [pcIs]; rfl
      cases step
      split
      · exact (continues_checkIndex g index).step keeps_refl fun _ => here
      · exact step_next _ keeps_refl here rfl
    · cases step
  | releaseWrittenBlock | releaseReadBlock =>
    dsimp only at step
    split at step
    · rename_i pcIs
      cases step
      exact release_step (by rw [pcIs]; rfl)
    · cases step
  | destroy =>
    dsimp only at step
    split at step
    · rename_i pcIs
      cases step
      split
      · refine ⟨keeps_refl, fun o attaches => ?_, fun _ isInit => by cases isInit⟩
        rcases attaches with ⟨⟨⟩⟩ | ⟨-, ⟨⟩⟩
      · exact step_leaves keeps_refl rfl rfl
    · cases step
  | next ok => exact next_step step

section Runs
variable {σ : Type u} [DecidableEq σ]

/-- Nobody is left behind: when the name is unlinked, every segment that maps the object bound to it or has opened it
will find out that it has to remap. -/
def Spares (s : Config σ Shm Segment) (e : σ × Input) : Prop :=
  (s.thread e.1).unlinks e.2 = true →
    ∀ q o, s.shared.name = some o → Attaches (s.thread q) o → Warned s.shared (s.thread q) o

instance [Fintype σ] (s : Config σ Shm Segment) (e : σ × Input) : Decidable (Spares s e) :=
  inferInstanceAs (Decidable (_ → ∀ q, ∀ o ∈ s.shared.name, Attaches (s.thread q) o → Warned s.shared (s.thread q) o))

/-- Whatever a segment attaches is the object bound to the name, or the segment will find out. -/
structure Inv (s : Config σ Shm Segment) : Prop where
  named : ∀ o, s.shared.name = some o → o < s.shared.fresh
  old : ∀ q o, Attaches (s.thread q) o → o < s.shared.fresh
  attached : ∀ q o, Attaches (s.thread q) o → s.shared.name = some o ∨ Warned s.shared (s.thread q) o
  init : ∀ q, (s.thread q).init = true → (s.thread q).state ≠ none

omit [DecidableEq σ] in
/-- The memory may change as it does in a step if every segment attaches afterwards only what it attached before or
what the name is bound to now. -/
theorem Inv.changes {s : Config σ Shm Segment} {p : σ} {thread : σ → Segment} (inv : Inv s)
    (change : Change s.shared (s.thread p) c shm') (spares : Spares s (p, c))
    (attaches : ∀ q o, Attaches (thread q) o → shm'.name = some o ∨
      Attaches (s.thread q) o ∧ ((thread q).pc.constructing = some o → (s.thread q).pc.constructing = some o))
    (init : ∀ q, (thread q).init = true → (thread q).state ≠ none) : Inv ⟨shm', thread⟩ := by
  have warned : ∀ {q o}, Warned s.shared (s.thread q) o →
      ((thread q).pc.constructing = some o → (s.thread q).pc.constructing = some o) →
      ((s.shared.objects o).needRemap = true → (shm'.objects o).needRemap = true) → Warned shm' (thread q) o :=
    fun warned same flag => ⟨flag warned.1, fun constructs => warned.2 (same constructs)⟩
  cases change with
  | keeps name fresh flags =>
    have named : ∀ o, shm'.name = some o → o < shm'.fresh := by
      rw [name, fresh]
      exact inv.named
    refine ⟨named, fun q o attached => ?_, fun q o attached => ?_, init⟩
    · rcases attaches q o attached with bound | ⟨before, -⟩
      · exact named o bound
      · show o < shm'.fresh
        rw [fresh]
        exact inv.old q o before
    · rcases attaches q o attached with bound | ⟨before, same⟩
      · exact .inl bound
      · rcases inv.attached q o before with bound | there
        · exact .inl (name.trans bound)
        · exact .inr (warned there same (flags o))
  | created free =>
    refine ⟨fun o bound => ?_, fun q o attached => ?_, fun q o attached => ?_, init⟩
    · cases bound
      exact Nat.lt_succ_self _
    · rcases attaches q o attached with ⟨⟨⟩⟩ | ⟨before, -⟩
      · exact Nat.lt_succ_self _
      · exact Nat.lt_succ_of_lt (inv.old q o before)
    · rcases attaches q o attached with bound | ⟨before, same⟩
      · exact .inl bound
      · rcases inv.attached q o before with bound | there
        · cases free.symm.trans bound
        · refine .inr (warned there same fun flagged => ?_)
          simpa only [Shm.create, Shm.set, Function.update_of_ne (inv.old q o before).ne] using flagged
  | unlinked unlinks =>
    refine ⟨fun o bound => (by cases bound), fun q o attached => ?_, fun q o attached => ?_, init⟩
    · rcases attaches q o attached with ⟨⟨⟩⟩ | ⟨before, -⟩
      exact inv.old q o before
    · rcases attaches q o attached with ⟨⟨⟩⟩ | ⟨before, same⟩
      rcases inv.attached q o before with bound | there
      · exact .inr (warned (spares unlinks q o bound before) same id)
      · exact .inr (warned there same id)
  | @constructed o' object constructs =>
    -- its creator has not been unlinked, so nobody relies on the flag
    have bound : s.shared.name = some o' := by
      rcases inv.attached p o' (.inl (Pc.opening_of_constructing constructs)) with bound | there
      · exact bound
      · exact absurd constructs there.2
    refine ⟨inv.named, fun q o attached => ?_, fun q o attached => ?_, init⟩
    · rcases attaches q o attached with bound | ⟨before, -⟩
      · exact inv.named o bound
      · exact inv.old q o before
    · rcases attaches q o attached with bound | ⟨before, same⟩
      · exact .inl bound
      · rcases inv.attached q o before with bound | there
        · exact .inl bound
        · by_cases here : o = o'
          · subst here
            exact .inl bound
          · refine .inr (warned there same fun flagged => ?_)
            simpa only [Shm.set, Function.update_of_ne here] using flagged

theorem inv_step {s s' : Config σ Shm Segment} {e : σ × Input} (inv : Inv s) (spares : Spares s e)
    (next : (machine σ).step s e = some s') : Inv s' := by
  obtain ⟨p, c⟩ := e
  obtain ⟨shm, g, moved, rfl⟩ := Config.move_eq_some.mp next
  have step := act_step moved
  refine inv.changes step.change spares (fun q o attached => ?_) fun q => ?_
  · by_cases same : q = p
    · subst same
      rw [Function.update_self] at attached ⊢
      exact step.attaches o attached
    · rw [Function.update_of_ne same] at attached ⊢
      exact .inr ⟨attached, id⟩
  · by_cases same : q = p
    · subst same
      rw [Function.update_self]
      exact step.init (inv.init q)
    · rw [Function.update_of_ne same]
      exact inv.init q

/-- No operation is in progress, the segment is initialised, and the `State` that it maps is not flagged. -/
def UpToDate (s : Config σ Shm Segment) (q : σ) : Prop :=
  (s.thread q).pc.quiet = true ∧ (s.thread q).init = true ∧
    ∀ o, (s.thread q).state = some o → (s.shared.objects o).needRemap = false

/-- In every run in which nobody is left behind: a segment that is up to date maps the object bound to the name, and
so any two of them map the same one. -/
theorem upToDate_shares {s : Config σ Shm Segment} (reach : (machine σ).ReachWhen Spares s) :
    (∀ q, UpToDate s q → ∃ o, s.shared.name = some o ∧ (s.thread q).state = some o) ∧
      ∀ p q, UpToDate s p → UpToDate s q → (s.thread p).state = (s.thread q).state := by
  have inv : Inv s := by
    refine reach.invariant ⟨fun o bound => (by cases bound), fun q o attached => ?_, fun q o attached => ?_,
      fun q isInit => (by cases isInit)⟩ fun _ _ _ inv spares step => inv_step inv spares step
    · rcases attached with ⟨⟨⟩⟩ | ⟨⟨⟩, -⟩
    · rcases attached with ⟨⟨⟩⟩ | ⟨⟨⟩, -⟩
  have bound : ∀ q, UpToDate s q → ∃ o, s.shared.name = some o ∧ (s.thread q).state = some o := by
    rintro q ⟨quiet, isInit, fresh⟩
    obtain ⟨o, mapped⟩ := Option.ne_none_iff_exists'.mp (inv.init q isInit)
    rcases inv.attached q o (.inr ⟨mapped, Pc.stays_of_quiet quiet⟩) with bound | warned
    · exact ⟨o, bound, mapped⟩
    · cases (fresh o mapped).symm.trans warned.1
  refine ⟨bound, fun p q here there => ?_⟩
  obtain ⟨o, named, mapped⟩ := bound p here
  obtain ⟨o', named', mapped'⟩ := bound q there
  rw [mapped, mapped', ← named, ← named']

/-- A segment is created and written to. Another process opens it, recreates it for a message that does not fit, and
writes; the first one remaps to read. -/
def grows : List (Bool × Input) :=
  (false, .acquireBlockToWrite 1) :: List.replicate 10 (false, .next true) ++ (false, .releaseWrittenBlock) ::
    (true, .acquireBlockToWrite 20000) :: List.replicate 18 (true, .next true) ++ (true, .releaseWrittenBlock) ::
    (false, .acquireBlockToRead 0) :: List.replicate 7 (false, .next true)

theorem grows_shares :
    let s := (machine Bool).stateAt grows 40
    (s.thread false).pc = .read 0 .acquired ∧ (s.thread true).pc = .idle ∧ s.shared.name = some 1 ∧
      (s.thread false).state = (s.thread true).state := by
  have reach : (machine Bool).ReachWhen Spares ((machine Bool).stateAt grows 40) :=
    Machine.stateAt_reachWhen grows (by decide) rfl
  refine ⟨rfl, rfl, rfl, (upToDate_shares reach).2 false true ⟨rfl, rfl, ?_⟩ ⟨rfl, rfl, ?_⟩⟩
  · rintro o ⟨⟩
    rfl
  · rintro o ⟨⟩
    rfl

/-- The last process that is counted destroys its segment while another one has opened it and is not counted yet. -/
def closesWhileOpening : List (Bool × Input) :=
  (false, .acquireBlockToWrite 1) :: List.replicate 10 (false, .next true) ++ (false, .releaseWrittenBlock) ::
    (true, .acquireBlockToRead 0) :: List.replicate 2 (true, .next true) ++
    (false, .destroy) :: List.replicate 3 (false, .next true) ++
    List.replicate 5 (true, .next true) ++ [(true, .releaseReadBlock)]

/-- The name is gone, and the other process uses the dead object as one that is up to date. -/
theorem closesWhileOpening_detached :
    let s := (machine Bool).stateAt closesWhileOpening 25
    (machine Bool).Reach s ∧ UpToDate s true ∧ (s.thread true).state = some 0 ∧ s.shared.name = none := by
  refine ⟨Machine.stateAt_reach closesWhileOpening rfl, ⟨rfl, rfl, ?_⟩, rfl, rfl⟩
  rintro o ⟨⟩
  rfl

end Runs

end CyberRT.Segment

import CyberRT.Scheduler.ClassicContext

namespace CyberRT.ClassicContext
open Concur
universe u v w

variable {γ : Type u} {κ : Type v} {ν : Type w}

/-- The processor has the lock of the coroutine. -/
def ProcessorPc.Holds (cr : γ) : ProcessorPc γ → Prop
  | .updateState held _ | .skip held _ | .resume held | .running held | .release held => held = cr
  | .acquire _ | .wait | .blocked => False

/-- The processor will look at the coroutine before it waits. -/
def ProcessorPc.Covers (cr : γ) : ProcessorPc γ → Prop
  | .acquire rest | .skip _ rest => cr ∈ rest
  | .updateState held rest => held = cr ∨ cr ∈ rest
  | .resume _ | .running _ | .release _ => True
  | .wait | .blocked => False

/-- An update of the coroutine is pending for which it waits. -/
def Shared.Due (r : Shared γ) (cr : γ) : Prop :=
  (r.routines cr).Waiting ∧ (r.routines cr).UpdatePending

structure Inv (queue : List γ) (s : State γ κ ν) : Prop where
  held : ∀ cr, (s.shared.routines cr).lock = true → ∃ p, (s.processors p).Holds cr
  covered : ∀ cr ∈ queue, s.shared.Due cr →
    (∃ n other, s.notifiers n = some (other, .notify)) ∨ 0 < s.shared.notifyGrp ∨ ∃ p, (s.processors p).Covers cr

/-- The processor has looked at the coroutine and is about to release it. -/
def ProcessorPc.Leaves (cr : γ) : ProcessorPc γ → Prop
  | .skip held _ => held = cr
  | _ => False

/-- A processor does not fail to acquire a coroutine for which an update is due while another one that has
already looked at it holds it. -/
def Allowed (s : State γ κ ν) : Event γ κ ν → Prop
  | .process p (.next _) =>
    match s.processors p with
    | .acquire (cr :: _) =>
      (s.shared.routines cr).lock = true → s.shared.Due cr → ∀ q, ¬ (s.processors q).Leaves cr
    | _ => True
  | _ => True

theorem inv_init [DecidableEq γ] [DecidableEq κ] [DecidableEq ν] (multiPriRq : Nat → List γ) :
    Inv (scanOrder multiPriRq) (machine κ ν multiPriRq).init where
  held := nofun
  covered := by
    rintro cr _ ⟨waiting | waiting, _⟩ <;> cases waiting

/-- A processor has the lock of no other coroutine than the one at which it stands. -/
theorem holds_only {s : State γ κ ν} {p : κ} {cr : γ} {pc : ProcessorPc γ} (atPc : s.processors p = pc)
    (own : ∀ other, pc.Holds other → cr = other) (other : γ) (holds : (s.processors p).Holds other) : other = cr := by
  rw [atPc] at holds
  exact (own other holds).symm

section Process
variable [DecidableEq κ] {queue : List γ} {s : State γ κ ν}

/-- What the step of a processor has to keep: the locks that it holds or has given back, and the coroutines
that only it covers. -/
theorem inv_process (inv : Inv queue s) (p : κ) (shared : Shared γ) (pc : ProcessorPc γ)
    (held : ∀ cr, (shared.routines cr).lock = true →
      pc.Holds cr ∨ (s.shared.routines cr).lock = true ∧ ¬ (s.processors p).Holds cr)
    (covered : ∀ cr ∈ queue, shared.Due cr → pc.Covers cr ∨ (∃ q, q ≠ p ∧ (s.processors q).Covers cr) ∨
      s.shared.Due cr ∧ s.shared.notifyGrp ≤ shared.notifyGrp ∧ ¬ (s.processors p).Covers cr) :
    Inv queue { s with shared := shared, processors := Function.update s.processors p pc } where
  held := by
    intro cr locked
    rcases held cr locked with holds | ⟨before, free⟩
    · exact ⟨p, by simpa only [Function.update_self] using holds⟩
    · obtain ⟨q, holds⟩ := inv.held cr before
      have other : q ≠ p := by
        rintro rfl
        exact free holds
      exact ⟨q, by simpa only [Function.update_of_ne other] using holds⟩
  covered := by
    intro cr queued due
    have byOther {q : κ} (other : q ≠ p) (covers : (s.processors q).Covers cr) :
        ∃ q, (Function.update s.processors p pc q).Covers cr :=
      ⟨q, by simpa only [Function.update_of_ne other] using covers⟩
    rcases covered cr queued due with covers | ⟨q, other, covers⟩ | ⟨before, count, uncovered⟩
    · exact .inr (.inr ⟨p, by simpa only [Function.update_self] using covers⟩)
    · exact .inr (.inr (byOther other covers))
    · rcases inv.covered cr queued before with notifying | positive | ⟨q, covers⟩
      · exact .inl notifying
      · exact .inr (.inl (positive.trans_le count))
      · refine .inr (.inr (byOther ?_ covers))
        rintro rfl
        exact uncovered covers

/-- The same for a step that changes one coroutine, the only one whose lock the processor has. -/
theorem inv_process_set [DecidableEq γ] (inv : Inv queue s) (p : κ) (cr : γ) (routine : CRoutine) (pc : ProcessorPc γ)
    (own : ∀ other, (s.processors p).Holds other → other = cr)
    (held : routine.lock = true → pc.Holds cr ∨ (s.shared.routines cr).lock = true ∧ ¬ (s.processors p).Holds cr)
    (rest : ∀ other ∈ queue, other ≠ cr → (s.processors p).Covers other → pc.Covers other)
    (covered : cr ∈ queue → routine.Waiting → routine.UpdatePending →
      pc.Covers cr ∨ (∃ q, q ≠ p ∧ (s.processors q).Covers cr) ∨ s.shared.Due cr ∧ ¬ (s.processors p).Covers cr) :
    Inv queue { s with shared := s.shared.set cr routine, processors := Function.update s.processors p pc } := by
  refine inv_process inv p _ pc ?_ ?_
  · intro other locked
    by_cases same : other = cr
    · subst same
      exact held (by simpa only [Shared.set, Function.update_self] using locked)
    · refine .inr ⟨by simpa only [Shared.set, Function.update_of_ne same] using locked, fun holds => ?_⟩
      exact same (own other holds)
  · intro other queued due
    by_cases same : other = cr
    · subst same
      simp only [Shared.Due, Shared.set, Function.update_self] at due
      rcases covered queued due.1 due.2 with covers | byOther | ⟨before, uncovered⟩
      · exact .inl covers
      · exact .inr (.inl byOther)
      · exact .inr (.inr ⟨before, le_rfl, uncovered⟩)
    · simp only [Shared.Due, Shared.set, Function.update_of_ne same] at due
      by_cases covers : (s.processors p).Covers other
      · exact .inl (rest other queued same covers)
      · exact .inr (.inr ⟨due, le_rfl, covers⟩)

/-- The same for a step that changes no coroutine and starts a new scan. -/
theorem inv_process_scan (inv : Inv queue s) (p : κ) (shared : Shared γ) (same : shared.routines = s.shared.routines)
    (free : ∀ cr, ¬ (s.processors p).Holds cr) :
    Inv queue { s with shared := shared, processors := Function.update s.processors p (.acquire queue) } := by
  refine inv_process inv p _ _ ?_ ?_
  · intro cr locked
    rw [same] at locked
    exact .inr ⟨locked, free cr⟩
  · intro cr queued _
    exact .inl queued

/-- The same for a step that changes nothing but where the processor stands, if that covers no coroutine. -/
theorem inv_process_idle (inv : Inv queue s) (p : κ) (pc : ProcessorPc γ) (free : ∀ cr, ¬ (s.processors p).Holds cr)
    (uncovered : ∀ cr, ¬ (s.processors p).Covers cr) :
    Inv queue { s with processors := Function.update s.processors p pc } := by
  refine inv_process inv p s.shared pc ?_ ?_
  · intro cr locked
    exact .inr ⟨locked, free cr⟩
  · intro cr _ due
    exact .inr (.inr ⟨due, le_rfl, uncovered cr⟩)

theorem step_acquire [DecidableEq γ] (inv : Inv queue s) {p : κ} {cr : γ} {rest : List γ}
    (atPc : s.processors p = .acquire (cr :: rest))
    (allowed : (s.shared.routines cr).lock = true → s.shared.Due cr → ∀ q, ¬ (s.processors q).Leaves cr) :
    Inv queue { s with
      shared := s.shared.set cr (s.shared.routines cr).acquire.2
      processors := Function.update s.processors p
        (if (s.shared.routines cr).acquire.1 then .updateState cr rest else .acquire rest) } := by
  have nothing : ∀ other, ¬ (s.processors p).Holds other := by
    rw [atPc]
    exact fun _ => id
  have tail : ∀ other, other ≠ cr → (s.processors p).Covers other → other ∈ rest := by
    rw [atPc]
    exact fun _ different covers => (List.mem_cons.mp covers).resolve_left different
  cases locked : (s.shared.routines cr).lock with
  | false =>
    simp only [CRoutine.acquire, locked, Bool.not_false, if_true]
    exact inv_process_set inv p cr _ _ (fun other holds => absurd holds (nothing other)) (fun _ => .inl rfl)
      (fun other _ different covers => .inr (tail other different covers)) (fun _ _ _ => .inl (.inl rfl))
  | true =>
    simp only [CRoutine.acquire, locked, Bool.not_true, if_false, Bool.false_eq_true]
    refine inv_process_set inv p cr _ _ (fun other holds => absurd holds (nothing other))
      (fun _ => .inr ⟨locked, nothing cr⟩) (fun other _ different covers => tail other different covers) ?_
    intro _ waiting pending
    -- The one that holds the coroutine has not looked at it yet, or will scan again.
    obtain ⟨q, holds⟩ := inv.held cr locked
    refine .inr (.inl ⟨q, ?_, ?_⟩)
    · rintro rfl
      exact nothing cr holds
    · cases atOther : s.processors q with
      | updateState other => exact .inl (by rwa [atOther] at holds)
      | skip other rest' =>
        refine absurd ?_ (allowed locked ⟨waiting, pending⟩ q)
        rw [atOther] at holds ⊢
        exact holds
      | resume | running | release => trivial
      | acquire | wait | blocked =>
        rw [atOther] at holds
        exact holds.elim

theorem step_updateState [DecidableEq γ] (inv : Inv queue s) {p : κ} {cr : γ} {rest : List γ}
    (atPc : s.processors p = .updateState cr rest) (now : Nat) :
    Inv queue { s with
      shared := s.shared.set cr ((s.shared.routines cr).updateState now)
      processors := Function.update s.processors p
        (if ((s.shared.routines cr).updateState now).state = .ready then .resume cr else .skip cr rest) } := by
  have own := holds_only atPc fun _ => id
  split
  · exact inv_process_set inv p cr _ _ own (fun _ => .inl rfl) (fun _ _ _ _ => trivial) (fun _ _ _ => .inl trivial)
  · refine inv_process_set inv p cr _ _ own (fun _ => .inl rfl) ?_ ?_
    · rw [atPc]
      exact fun _ _ different covers => covers.resolve_left different.symm
    · exact fun _ waiting pending => absurd ⟨waiting, pending⟩ (CRoutine.updateState_taken _ now)

theorem step_skip [DecidableEq γ] (inv : Inv queue s) {p : κ} {cr : γ} {rest : List γ}
    (atPc : s.processors p = .skip cr rest) :
    Inv queue { s with
      shared := s.shared.set cr (s.shared.routines cr).release
      processors := Function.update s.processors p (.acquire rest) } := by
  refine inv_process_set inv p cr _ _ (holds_only atPc fun _ => id) nofun ?_ ?_
  · rw [atPc]
    exact fun _ _ _ covers => covers
  · intro _ waiting pending
    rw [atPc]
    by_cases later : cr ∈ rest
    · exact .inl later
    · exact .inr (.inr ⟨⟨waiting, pending⟩, later⟩)

/-- A processor that keeps its coroutine, to scan again afterwards. -/
theorem step_busy [DecidableEq γ] (inv : Inv queue s) {p : κ} {cr : γ}
    (atPc : s.processors p = .resume cr ∨ s.processors p = .running cr) (routine : CRoutine) {pc : ProcessorPc γ}
    (holds : pc.Holds cr) (covers : ∀ other, pc.Covers other) :
    Inv queue { s with shared := s.shared.set cr routine, processors := Function.update s.processors p pc } := by
  have own : ∀ other, (s.processors p).Holds other → other = cr := by
    rcases atPc with atPc | atPc
    · exact holds_only atPc fun _ => id
    · exact holds_only atPc fun _ => id
  exact inv_process_set inv p cr routine pc own (fun _ => .inl holds) (fun other _ _ _ => covers other)
    (fun _ _ _ => .inl (covers cr))

theorem step_release [DecidableEq γ] (inv : Inv queue s) {p : κ} {cr : γ} (atPc : s.processors p = .release cr) :
    Inv queue { s with
      shared := s.shared.set cr (s.shared.routines cr).release
      processors := Function.update s.processors p (.acquire queue) } :=
  inv_process_set inv p cr _ _ (holds_only atPc fun _ => id) nofun (fun _ queued _ _ => queued)
    (fun queued _ _ => .inl queued)

theorem step_swapContext (inv : Inv queue s) {p : κ} {cr : γ} (atPc : s.processors p = .running cr) :
    Inv queue { s with processors := Function.update s.processors p (.release cr) } := by
  refine inv_process inv p s.shared _ ?_ (fun _ _ _ => .inl trivial)
  intro other locked
  by_cases same : cr = other
  · exact .inl same
  · refine .inr ⟨locked, ?_⟩
    rw [atPc]
    exact same

theorem step_wait (inv : Inv queue s) {p : κ} (atPc : s.processors p = .wait ∨ s.processors p = .blocked)
    {shared : Shared γ} {pc : ProcessorPc γ}
    (waits : (if 0 < s.shared.notifyGrp then (s.shared.woken, .acquire queue) else (s.shared, .blocked)) =
      (shared, pc)) :
    Inv queue { s with shared := shared, processors := Function.update s.processors p pc } := by
  have free : ∀ cr, ¬ (s.processors p).Holds cr := by
    rcases atPc with atPc | atPc <;> rw [atPc] <;> exact fun _ => id
  have uncovered : ∀ cr, ¬ (s.processors p).Covers cr := by
    rcases atPc with atPc | atPc <;> rw [atPc] <;> exact fun _ => id
  split at waits
  · cases waits
    exact inv_process_scan inv p _ rfl free
  · cases waits
    exact inv_process_idle inv p .blocked free uncovered

theorem step_process [DecidableEq γ] (inv : Inv queue s) {p : κ} {action : Action}
    (allowed : Allowed s (.process p action)) {shared : Shared γ} {pc : ProcessorPc γ}
    (acts : act queue s.shared (s.processors p) action = some (shared, pc)) :
    Inv queue { s with shared := shared, processors := Function.update s.processors p pc } := by
  unfold act at acts
  split at acts
  · rename_i atPc
    cases acts
    refine inv_process_idle inv p .wait ?_ ?_ <;> rw [atPc]
    · exact fun _ => id
    · exact fun _ => List.not_mem_nil
  · rename_i cr rest now atPc
    cases acts
    simp only [Allowed, atPc] at allowed
    exact step_acquire inv atPc allowed
  · rename_i cr rest now atPc
    cases acts
    exact step_updateState inv atPc now
  · rename_i atPc
    cases acts
    exact step_skip inv atPc
  · rename_i cr now atPc
    generalize (s.shared.routines cr).resume = resumed at acts
    obtain ⟨switched, routine⟩ := resumed
    cases acts
    split
    · exact step_busy inv (.inl atPc) routine rfl fun _ => trivial
    · exact step_busy inv (.inl atPc) routine rfl fun _ => trivial
  · rename_i atPc
    cases acts
    exact step_busy inv (.inr atPc) _ rfl fun _ => trivial
  · rename_i atPc
    cases acts
    exact step_swapContext inv atPc
  · rename_i atPc
    cases acts
    exact step_release inv atPc
  · rename_i atPc
    exact step_wait inv (.inl atPc) (Option.some.inj acts)
  · rename_i atPc
    exact step_wait inv (.inr atPc) (Option.some.inj acts)
  · rename_i atPc
    cases acts
    refine inv_process_scan inv p _ ?_ ?_
    · split <;> rfl
    · rw [atPc]
      exact fun _ => id
  · cases acts

end Process

section Notify
variable [DecidableEq ν] {queue : List γ} {s : State γ κ ν}

/-- A notifier that has set no flag and does not stand before `Notify` is not needed. -/
theorem inv_notifier (inv : Inv queue s) {n : ν} (other : ∀ cr, s.notifiers n ≠ some (cr, .notify))
    (next : Option (γ × NotifyPc)) : Inv queue { s with notifiers := Function.update s.notifiers n next } where
  held := inv.held
  covered := by
    intro cr queued due
    rcases inv.covered cr queued due with ⟨m, cr', stands⟩ | covered
    · have different : m ≠ n := by
        rintro rfl
        exact other cr' stands
      exact .inl ⟨m, cr', by simpa only [Function.update_of_ne different] using stands⟩
    · exact .inr covered

theorem step_setUpdateFlag [DecidableEq γ] (inv : Inv queue s) (n : ν) (cr : γ) :
    Inv queue { s with
      shared := s.shared.set cr (s.shared.routines cr).setUpdateFlag
      notifiers := Function.update s.notifiers n (some (cr, .notify)) } where
  held := by
    intro other locked
    refine inv.held other ?_
    by_cases same : other = cr
    · subst same
      simpa only [Shared.set, Function.update_self, CRoutine.setUpdateFlag] using locked
    · simpa only [Shared.set, Function.update_of_ne same] using locked
  covered := fun _ _ _ => .inl ⟨n, cr, Function.update_self ..⟩

theorem step_notify [DecidableEq γ] [DecidableEq κ] (inv : Inv queue s) {n : ν} {s' : State γ κ ν}
    (stepped : step queue s (.notify n) = some s') : Inv queue s' := by
  simp only [step] at stepped
  split at stepped
  · cases stepped
  · cases stepped
    exact ⟨inv.held, fun _ _ _ => .inr (.inl (Nat.succ_pos _))⟩
  · rename_i cr pc earlier atPc
    have other : ∀ cr', s.notifiers n ≠ some (cr', .notify) := by
      intro cr' stands
      rw [atPc] at stands
      cases stands
      exact earlier rfl
    cases stepped
    cases pc with
    | readDataWait | readIoWait =>
      simp only [NotifyPc.act, Shared.set, Function.update_eq_self]
      exact inv_notifier inv other _
    | setUpdateFlag => exact step_setUpdateFlag inv n cr
    | notify => exact absurd atPc (other cr)

end Notify

variable [DecidableEq γ] [DecidableEq κ] [DecidableEq ν]

theorem step_inv {queue : List γ} {s s' : State γ κ ν} {e : Event γ κ ν} (inv : Inv queue s) (allowed : Allowed s e)
    (stepped : step queue s e = some s') : Inv queue s' := by
  cases e with
  | process p action =>
    obtain ⟨⟨shared, pc⟩, acts, rfl⟩ := Option.map_eq_some_iff.mp stepped
    exact step_process inv allowed acts
  | call n cr =>
    simp only [step] at stepped
    split at stepped
    · rename_i idle
      cases stepped
      refine inv_notifier inv (fun cr' stands => ?_) _
      rw [idle] at stands
      cases stands
    · cases stepped
  | notify n => exact step_notify inv stepped

/-- In a run in which no processor fails to acquire a coroutine whose update another one is about to leave
behind, the processors do not all block while a coroutine waits for a pending update. -/
theorem not_lost {multiPriRq : Nat → List γ} {s : State γ κ ν}
    (reach : (machine κ ν multiPriRq).ReachWhen Allowed s) : ¬ s.Lost (scanOrder multiPriRq) := by
  have inv : Inv (scanOrder multiPriRq) s :=
    reach.invariant (inv_init multiPriRq) fun _ _ _ inv allowed stepped => step_inv inv allowed stepped
  rintro ⟨quiet, blocked, none, cr, queued, due⟩
  rcases inv.covered cr queued due with ⟨n, other, stands⟩ | positive | ⟨p, covers⟩
  · rw [quiet n] at stands
    cases stands
  · omega
  · rw [blocked p] at covers
    exact covers

/-- One coroutine of the lowest priority. -/
def oneRoutine : Nat → List Unit
  | 0 => [()]
  | _ + 1 => []

/-- A processor runs the coroutine until it waits for data. -/
def untilDataWait (p : Bool) : List (Event Unit Bool Unit) :=
  [.process p (.next 0), .process p (.next 0), .process p (.next 0), .process p (.setState .dataWait 0),
    .process p .swapContext, .process p (.next 0)]

/-- A processor looks at the coroutine in vain, and is blocked. -/
def untilBlocked (p : Bool) : List (Event Unit Bool Unit) :=
  [.process p (.next 0), .process p (.next 0), .process p (.next 0), .process p (.next 0), .process p (.next 0)]

def notifies : List (Event Unit Bool Unit) :=
  [.call () (), .notify (), .notify (), .notify ()]

/-- A notification comes when both processors are blocked. -/
def notifyBlocked : List (Event Unit Bool Unit) :=
  untilDataWait false ++ untilBlocked false ++ untilBlocked true ++ notifies

theorem notifyBlocked_counted :
    let s := (machine Bool Unit oneRoutine).stateAt notifyBlocked 20
    (machine Bool Unit oneRoutine).ReachWhen Allowed s ∧ (∀ p, s.processors p = .blocked) ∧ s.shared.Due () ∧
      s.shared.notifyGrp ≠ 0 := by
  intro s
  have meets : (machine Bool Unit oneRoutine).Meets Allowed (machine Bool Unit oneRoutine).init notifyBlocked :=
    ⟨nofun, trivial, trivial, trivial, trivial, trivial, nofun, trivial, trivial, trivial, trivial,
      nofun, trivial, trivial, trivial, trivial, trivial, trivial, trivial, trivial, trivial⟩
  have reach := Machine.stateAt_reachWhen notifyBlocked meets rfl
  have blocked : ∀ p, s.processors p = .blocked := by decide
  have due : s.shared.Due () := ⟨by decide, by decide⟩
  refine ⟨reach, blocked, due, fun none => ?_⟩
  exact not_lost reach ⟨fun _ => rfl, blocked, none, (), by decide, due⟩

/-- The first processor has looked at the coroutine, and is about to release it, when the notifier sets the
flag. The second one takes the notification, fails to acquire the coroutine, and is blocked; then the first
one is blocked too. -/
def notifyInspected : List (Event Unit Bool Unit) :=
  untilDataWait false ++ [.process false (.next 0), .process false (.next 0)] ++ notifies ++
    [.process true (.next 0), .process true (.next 0), .process true (.next 0), .process true (.next 0),
      .process true (.next 0), .process true (.next 0)] ++
    [.process false (.next 0), .process false (.next 0), .process false (.next 0)]

theorem notifyInspected_lost :
    let s := (machine Bool Unit oneRoutine).stateAt notifyInspected 21
    (machine Bool Unit oneRoutine).Reach s ∧ s.Lost (scanOrder oneRoutine) :=
  ⟨Machine.stateAt_reach notifyInspected rfl, fun _ => rfl, by decide, by decide, (), by decide, by decide, by decide⟩

end CyberRT.ClassicContext

import CyberRT.Scheduler.Registry

namespace CyberRT.Scheduler
open Concur
variable {ρ π τ : Type}

/-- The coroutines with the number `c` in a run queue. -/
def Setup.members (setup : Setup ρ π) (entries : List (Nat × ρ)) (c : Nat) : List ρ :=
  (entries.filter fun e => setup.id e.2 = c).map Prod.snd

section Members
variable {setup : Setup ρ π} {entries : List (Nat × ρ)} {c : Nat}

theorem mem_members {cr : ρ} (own : setup.id cr = c) : cr ∈ setup.members entries c ↔ ∃ prio, (prio, cr) ∈ entries := by
  simp [Setup.members, own]

theorem RunQueue.put_eq (q : RunQueue) (prio : Nat) (cr : ρ) (entries : List (Nat × ρ)) :
    ∃ front back, entries = front ++ back ∧ q.put prio cr entries = front ++ (prio, cr) :: back := by
  cases q with
  | classic => exact ⟨entries, [], by simp, rfl⟩
  | choreography pid =>
    induction entries with
    | nil => exact ⟨[], [], rfl, rfl⟩
    | cons e rest ih =>
      simp only [RunQueue.put, emplace] at ih ⊢
      split
      · obtain ⟨front, back, same, put⟩ := ih
        exact ⟨e :: front, back, by rw [same, List.cons_append], by rw [put, List.cons_append]⟩
      · exact ⟨[], e :: rest, rfl, rfl⟩

theorem members_put (setup : Setup ρ π) (entries : List (Nat × ρ)) (c : Nat) (q : RunQueue) (prio : Nat) (cr : ρ) :
    ∃ front back, setup.members entries c = front ++ back ∧
      setup.members (q.put prio cr entries) c = front ++ (if setup.id cr = c then cr :: back else back) := by
  obtain ⟨front, back, rfl, put⟩ := q.put_eq prio cr entries
  refine ⟨setup.members front c, setup.members back c, by simp [Setup.members], ?_⟩
  rw [put]
  by_cases own : setup.id cr = c <;> simp [Setup.members, own]

theorem members_put_other {q : RunQueue} {prio : Nat} {cr : ρ} (other : setup.id cr ≠ c) :
    setup.members (q.put prio cr entries) c = setup.members entries c := by
  obtain ⟨front, back, before, after⟩ := members_put setup entries c q prio cr
  rw [after, before, if_neg other]

theorem members_put_own {q : RunQueue} {prio : Nat} {cr : ρ} (none : setup.members entries (setup.id cr) = []) :
    setup.members (q.put prio cr entries) (setup.id cr) = [cr] := by
  obtain ⟨front, back, before, after⟩ := members_put setup entries (setup.id cr) q prio cr
  rw [none] at before
  obtain ⟨rfl, rfl⟩ := List.append_eq_nil_iff.mp before.symm
  rw [after, if_pos rfl, List.nil_append]

theorem members_eraseP_other {d : Nat} (other : d ≠ c) :
    setup.members (entries.eraseP fun e => setup.id e.2 = d) c = setup.members entries c := by
  unfold Setup.members
  induction entries with
  | nil => rfl
  | cons e rest ih =>
    by_cases found : setup.id e.2 = d
    · simp [found, other]
    · by_cases own : setup.id e.2 = c
      · simp [own, other.symm, ih]
      · simp [own, found, ih]

theorem members_eraseP_own :
    setup.members (entries.eraseP fun e => setup.id e.2 = c) c = (setup.members entries c).tail := by
  unfold Setup.members
  induction entries with
  | nil => rfl
  | cons e rest ih =>
    by_cases own : setup.id e.2 = c
    · simp [own]
    · simp [own, ih]

/-- `RemoveCRoutine` finds the first coroutine with the number. -/
theorem find_members (setup : Setup ρ π) (entries : List (Nat × ρ)) (c : Nat) :
    ((entries.find? fun e => setup.id e.2 = c).map Prod.snd) = (setup.members entries c).head? := by
  rw [Setup.members, List.head?_map, List.head?_filter]

end Members

/-- No run queue has a coroutine with the number `c`. -/
def Absent (setup : Setup ρ π) (s : State ρ π τ) (c : Nat) : Prop :=
  ∀ q, setup.members (s.queues q) c = []

/-- Coroutine `cr` is once in the run queue `q`, and no other coroutine with its number is in any. -/
def InQueue (setup : Setup ρ π) (s : State ρ π τ) (cr : ρ) (q : RunQueue) : Prop :=
  setup.members (s.queues q) (setup.id cr) = [cr] ∧ ∀ q', q' ≠ q → setup.members (s.queues q') (setup.id cr) = []

/-- The fields of `cr` are those of a coroutine that has been dispatched, and say that it is in the run queue `q`. -/
def Leads (setup : Setup ρ π) (s : State ρ π τ) (cr : ρ) (q : RunQueue) : Prop :=
  setup.policy.Settled (setup.name cr) (s.place cr) ∧ setup.policy.searched (s.place cr).pid (s.place cr) = some q

/-- The registry and the run queues agree about the number `c`. -/
def Agreed (setup : Setup ρ π) (s : State ρ π τ) (c : Nat) : Prop :=
  (s.idCr c = none ∧ Absent setup s c) ∨
    ∃ cr q, s.idCr c = some cr ∧ setup.id cr = c ∧ Leads setup s cr q ∧ InQueue setup s cr q

/-- What holds at each point of a call about the number on which it has locked the mutex. -/
def At (setup : Setup ρ π) (s : State ρ π τ) : CallerPc ρ → Prop
  | .assign cr _ => Agreed setup s (setup.id cr)
  | .register cr _ =>
    Agreed setup s (setup.id cr) ∧ ∃ before, s.place cr = setup.policy.assign (setup.name cr) before
  | .place cr _ =>
    (s.idCr (setup.id cr) = some cr ∧ Absent setup s (setup.id cr)) ∧
      ∃ before, s.place cr = setup.policy.assign (setup.name cr) before
  | .enqueue cr q _ => (s.idCr (setup.id cr) = some cr ∧ Absent setup s (setup.id cr)) ∧ Leads setup s cr q
  | .unregister crid _ => Agreed setup s crid
  | .search cr pid _ =>
    s.idCr (setup.id cr) = none ∧ pid = (s.place cr).pid ∧ ∃ q, Leads setup s cr q ∧ InQueue setup s cr q
  | .acquire cr found q _ | .erase cr found q _ => found = cr ∧ s.idCr (setup.id cr) = none ∧ InQueue setup s cr q
  | .release cr found _ _ => found = cr ∧ s.idCr (setup.id cr) = none ∧ Absent setup s (setup.id cr)
  | .unlockQueue cr _ _ | .answer (.removed cr) _ => s.idCr (setup.id cr) = none ∧ Absent setup s (setup.id cr)
  | .answer (.dispatched cr _) _ => Agreed setup s (setup.id cr)
  | .answer (.notRemoved crid) _ | .answer (.threw crid) _ => Agreed setup s crid
  | .idle | .getMutex _ | .createMutex _ | .lockMutex _ _ => True

/-- A step that does not concern the number `c`. -/
structure Apart (setup : Setup ρ π) (s s' : State ρ π τ) (c : Nat) : Prop where
  idCr : s'.idCr c = s.idCr c
  members : ∀ q, setup.members (s'.queues q) c = setup.members (s.queues q) c
  place : ∀ cr, setup.id cr = c → s'.place cr = s.place cr

section Frame
variable {setup : Setup ρ π} {s s' : State ρ π τ} {c : Nat}

theorem Apart.absent (apart : Apart setup s s' c) (absent : Absent setup s c) : Absent setup s' c := by
  intro q
  rw [apart.members]
  exact absent q

theorem Apart.inQueue {cr : ρ} (apart : Apart setup s s' (setup.id cr)) {q : RunQueue} (there : InQueue setup s cr q) :
    InQueue setup s' cr q := by
  refine ⟨?_, fun q' other => ?_⟩
  · rw [apart.members]
    exact there.1
  · rw [apart.members]
    exact there.2 q' other

theorem Apart.leads {cr : ρ} (apart : Apart setup s s' (setup.id cr)) {q : RunQueue} (leads : Leads setup s cr q) :
    Leads setup s' cr q := by
  rw [Leads, apart.place cr rfl]
  exact leads

theorem Apart.agreed (apart : Apart setup s s' c) (agreed : Agreed setup s c) : Agreed setup s' c := by
  rcases agreed with ⟨unknown, absent⟩ | ⟨cr, q, known, rfl, leads, there⟩
  · exact .inl ⟨apart.idCr.trans unknown, apart.absent absent⟩
  · exact .inr ⟨cr, q, apart.idCr.trans known, rfl, apart.leads leads, apart.inQueue there⟩

theorem At.frame {pc : CallerPc ρ} (own : pc.holds ≠ none → ∀ c, pc.id setup = some c → Apart setup s s' c)
    (here : At setup s pc) : At setup s' pc := by
  cases pc with
  | idle | getMutex | createMutex | lockMutex => trivial
  | assign cr w => exact (own nofun _ rfl).agreed here
  | register cr w =>
    have apart := own nofun _ rfl
    refine ⟨apart.agreed here.1, ?_⟩
    rw [apart.place cr rfl]
    exact here.2
  | place cr w =>
    have apart := own nofun _ rfl
    refine ⟨⟨apart.idCr.trans here.1.1, apart.absent here.1.2⟩, ?_⟩
    rw [apart.place cr rfl]
    exact here.2
  | enqueue cr q w =>
    have apart := own nofun _ rfl
    exact ⟨⟨apart.idCr.trans here.1.1, apart.absent here.1.2⟩, apart.leads here.2⟩
  | unregister crid w => exact (own nofun _ rfl).agreed here
  | search cr pid w =>
    have apart := own nofun _ rfl
    obtain ⟨unknown, pid, q, leads, there⟩ := here
    refine ⟨apart.idCr.trans unknown, ?_, q, apart.leads leads, apart.inQueue there⟩
    rw [apart.place cr rfl]
    exact pid
  | acquire cr found q w | erase cr found q w =>
    have apart := own nofun _ rfl
    exact ⟨here.1, apart.idCr.trans here.2.1, apart.inQueue here.2.2⟩
  | release cr found q w =>
    have apart := own nofun _ rfl
    exact ⟨here.1, apart.idCr.trans here.2.1, apart.absent here.2.2⟩
  | unlockQueue cr q w =>
    have apart := own nofun _ rfl
    exact ⟨apart.idCr.trans here.1, apart.absent here.2⟩
  | answer reply w =>
    have apart := own nofun _ rfl
    cases reply with
    | removed cr => exact ⟨apart.idCr.trans here.1, apart.absent here.2⟩
    | dispatched | notRemoved | threw => exact apart.agreed here

/-- Whatever a call returns, it leaves the registry and the run queues in agreement. -/
theorem At.answer_agreed {reply : Answer ρ} {w : Nat} (here : At setup s (.answer reply w)) :
    Agreed setup s (reply.id setup) := by
  cases reply with
  | removed cr => exact .inl here
  | dispatched | notRemoved | threw => exact here

end Frame

/-- A thread has locked the mutex of the number `c`. -/
def Inside (setup : Setup ρ π) (pc : CallerPc ρ) (c : Nat) : Prop :=
  pc.id setup = some c ∧ pc.holds ≠ none

structure Inv (setup : Setup ρ π) (s : State ρ π τ) : Prop where
  keyed : Keyed setup s
  mutexes : Mutexes setup s
  threads : ∀ t, At setup s (s.callers t)
  agreed : ∀ c, (∀ t, ¬ Inside setup (s.callers t) c) → Agreed setup s c

/-- The coroutine to which a thread is about to assign what is configured. -/
def CallerPc.assigns : CallerPc ρ → Option ρ
  | .assign cr _ => some cr
  | _ => none

/-- A dispatch does not clobber the coroutine that is registered. -/
def Keeps (setup : Setup ρ π) (s : State ρ π τ) : Event ρ π τ → Prop
  | .caller t => ∀ cr ∈ (s.callers t).assigns, s.idCr (setup.id cr) = some cr →
      ¬ setup.policy.Clobbers (setup.name cr) (s.place cr)
  | _ => True

instance [DecidableEq ρ] (setup : Setup ρ π) (s : State ρ π τ) (e : Event ρ π τ) : Decidable (Keeps setup s e) :=
  match e with
  | .caller t => inferInstanceAs (Decidable (∀ cr ∈ (s.callers t).assigns, _ → _))
  | .call .. | .process .. | .setUpdateFlag _ => inferInstanceAs (Decidable True)

section Step
variable {setup : Setup ρ π} {s s' : State ρ π τ} {t : τ} {pc : CallerPc ρ}

/-- A step that touches neither the registry nor a run queue nor the fields that tell it. -/
theorem apart_of_same (idCr : s'.idCr = s.idCr) (queues : s'.queues = s.queues) (place : s'.place = s.place) (c : Nat) :
    Apart setup s s' c := by
  refine ⟨by rw [idCr], fun q => by rw [queues], fun cr _ => by rw [place]⟩

theorem Mutexes.inside_alone (mutexes : Mutexes setup s) {u : τ} {c : Nat} (first : Inside setup (s.callers t) c)
    (second : Inside setup (s.callers u) c) : t = u := by
  obtain ⟨w, firstHolds⟩ := Option.ne_none_iff_exists'.mp first.2
  obtain ⟨v, secondHolds⟩ := Option.ne_none_iff_exists'.mp second.2
  exact mutexes.alone first.1 firstHolds second.1 secondHolds

theorem apart_setPlace [DecidableEq ρ] (s : State ρ π τ) (cr : ρ) (place : Placement) {c : Nat}
    (other : c ≠ setup.id cr) : Apart setup s (s.setPlace cr place) c := by
  refine ⟨rfl, fun _ => rfl, fun cr' own => ?_⟩
  refine Function.update_of_ne ?_ _ _
  rintro rfl
  exact other own.symm

theorem apart_setIdCr (s : State ρ π τ) {crid c : Nat} (cr : Option ρ) (other : c ≠ crid) :
    Apart setup s (s.setIdCr crid cr) c :=
  ⟨Function.update_of_ne other _ _, fun _ => rfl, fun _ _ => rfl⟩

theorem apart_setQueue (s : State ρ π τ) (q : RunQueue) {entries : List (Nat × ρ)} {c : Nat}
    (same : setup.members entries c = setup.members (s.queues q) c) : Apart setup s (s.setQueue q entries) c := by
  refine ⟨rfl, fun q' => ?_, fun _ _ => rfl⟩
  by_cases mine : q' = q
  · subst mine
    simp only [State.setQueue, Function.update_self]
    exact same
  · simp only [State.setQueue, Function.update_of_ne mine]

/-- The coroutine that is registered keeps the fields it was dispatched with. -/
theorem agreed_assign [DecidableEq ρ] {cr : ρ} (agreed : Agreed setup s (setup.id cr))
    (keeps : s.idCr (setup.id cr) = some cr → ¬ setup.policy.Clobbers (setup.name cr) (s.place cr)) :
    Agreed setup (s.setPlace cr (setup.policy.assign (setup.name cr) (s.place cr))) (setup.id cr) := by
  rcases agreed with absent | ⟨other, q, known, own, leads, there⟩
  · exact .inl absent
  · refine .inr ⟨other, q, known, own, ?_, there⟩
    have unchanged :
        (s.setPlace cr (setup.policy.assign (setup.name cr) (s.place cr))).place other = s.place other := by
      by_cases same : other = cr
      · subst same
        simp only [State.setPlace, Function.update_self]
        exact leads.1.assign (keeps known)
      · exact Function.update_of_ne same _ _
    rw [Leads, unchanged]
    exact leads

/-- Whoever gets the mutex of a number finds the registry and the run queues in agreement about it. -/
theorem Inv.agreed_of_free (inv : Inv setup s) {call : Call ρ} {w : Nat} (here : s.callers t = .lockMutex call w)
    (free : s.mutex w = false) : Agreed setup s (call.id setup) := by
  refine inv.agreed _ fun u inside => ?_
  obtain ⟨v, holds⟩ := Option.ne_none_iff_exists'.mp inside.2
  have mine := inv.mutexes.known t (call.id setup) w (by rw [here]; rfl) (by rw [here]; rfl)
  have other := inv.mutexes.known u _ v inside.1 (CallerPc.wrapper_of_holds holds)
  rw [mine] at other
  cases other
  exact inv.mutexes.exclusive.free free u holds

theorem at_start {call : Call ρ} {w : Nat} (agreed : Agreed setup s (call.id setup)) :
    At setup s (call.start setup.policy w) := by
  cases call with
  | removeCRoutine crid => exact agreed
  | dispatchTask cr =>
    unfold Call.start
    cases policy : setup.policy with
    | choreography crConfs procNum => exact agreed
    | classic crConfs groups =>
      refine ⟨agreed, s.place cr, ?_⟩
      rw [policy, Policy.assign]

/-- A coroutine that has been registered is put into the run queue to which its fields lead. -/
theorem at_enqueued {cr : ρ} {q : RunQueue} {w : Nat} (here : At setup s (.enqueue cr q w)) :
    At setup (s.setQueue q (q.put (s.place cr).priority cr (s.queues q))) (.answer (.dispatched cr true) w) := by
  obtain ⟨⟨known, absent⟩, leads⟩ := here
  refine .inr ⟨cr, q, known, rfl, leads, ?_, fun q' other => ?_⟩
  · simp only [State.setQueue, Function.update_self]
    exact members_put_own (absent q)
  · simp only [State.setQueue, Function.update_of_ne other]
    exact absent q'

/-- The coroutine that is erased was the only one with its number. -/
theorem at_erased {cr found : ρ} {q : RunQueue} {w : Nat} (here : At setup s (.erase cr found q w)) :
    At setup (s.setQueue q ((s.queues q).eraseP fun e => setup.id e.2 = setup.id cr)) (.release cr found q w) := by
  obtain ⟨same, unknown, mine, others⟩ := here
  refine ⟨same, unknown, fun q' => ?_⟩
  by_cases own : q' = q
  · subst own
    simp only [State.setQueue, Function.update_self]
    rw [members_eraseP_own, mine, List.tail_cons]
  · simp only [State.setQueue, Function.update_of_ne own]
    exact others q' own

/-- A search finds the coroutine that was registered. -/
theorem at_search {cr : ρ} {pid w : Nat} (here : At setup s (.search cr pid w)) :
    ∃ q, setup.policy.searched pid (s.place cr) = some q ∧ InQueue setup s cr q ∧
      ∃ prio, ((s.queues q).find? fun e => setup.id e.2 = setup.id cr) = some (prio, cr) := by
  obtain ⟨-, rfl, q, leads, there⟩ := here
  refine ⟨q, leads.2, there, ?_⟩
  have found := find_members setup (s.queues q) (setup.id cr)
  rw [there.1] at found
  obtain ⟨⟨prio, other⟩, entry, rfl⟩ := Option.map_eq_some_iff.mp found
  exact ⟨prio, entry⟩

theorem Inside.intro {c w : Nat} (id : pc.id setup = some c) (holds : pc.holds = some w) : Inside setup pc c :=
  ⟨id, by simp [holds]⟩

theorem Inside.of_eq {c w : Nat} (here : s.callers t = pc) (id : pc.id setup = some c) (holds : pc.holds = some w) :
    Inside setup (s.callers t) c := by
  rw [here]
  exact .intro id holds

variable [DecidableEq τ]

theorem Apart.goto {c : Nat} (apart : Apart setup s s' c) : Apart setup s (s'.callerGoto t pc) c :=
  ⟨apart.idCr, apart.members, apart.place⟩

/-- A thread moves and leaves alone what does not concern it. -/
theorem Inv.moved (inv : Inv setup s) (keyed : Keyed setup s') (mutexes : Mutexes setup s')
    (callers : s'.callers = Function.update s.callers t pc)
    (apart : ∀ c, ¬ Inside setup (s.callers t) c → Apart setup s s' c) (here : At setup s' pc)
    (left : ∀ c, Inside setup (s.callers t) c → ¬ Inside setup pc c → Agreed setup s' c) : Inv setup s' where
  keyed := keyed
  mutexes := mutexes
  threads u := by
    rw [callers]
    by_cases same : u = t
    · subst same
      rw [Function.update_self]
      exact here
    · rw [Function.update_of_ne same]
      refine (inv.threads u).frame fun holds c named => apart c fun mine => ?_
      exact same (inv.mutexes.inside_alone ⟨named, holds⟩ mine)
  agreed c free := by
    rw [callers] at free
    have gone : ¬ Inside setup pc c := by
      have own := free t
      rw [Function.update_self] at own
      exact own
    by_cases mine : Inside setup (s.callers t) c
    · exact left c mine gone
    · refine (apart c mine).agreed (inv.agreed c fun u inside => ?_)
      by_cases same : u = t
      · exact mine (same ▸ inside)
      · have other := free u
        rw [Function.update_of_ne same] at other
        exact other inside

/-- A thread that is inside a call, and stays there. -/
theorem Inv.within (inv : Inv setup s) (keyed : Keyed setup s') (mutexes : Mutexes setup s')
    (callers : s'.callers = Function.update s.callers t pc) {c : Nat} (inside : Inside setup (s.callers t) c)
    (stays : Inside setup pc c) (apart : ∀ d, d ≠ c → Apart setup s s' d) (here : At setup s' pc) : Inv setup s' := by
  have unique : ∀ d, Inside setup (s.callers t) d → d = c := by
    intro d other
    exact Option.some.inj (other.1.symm.trans inside.1)
  refine inv.moved keyed mutexes callers (fun d outside => apart d ?_) here fun d was left => ?_
  · rintro rfl
    exact outside inside
  · rw [unique d was] at left
    exact absurd stays left

/-- A step of a thread inside a call that touches neither the registry nor a run queue nor the fields that tell it. -/
theorem Inv.idles (inv : Inv setup s) (keyed : Keyed setup s') (mutexes : Mutexes setup s')
    (callers : s'.callers = Function.update s.callers t pc) (idCr : s'.idCr = s.idCr) (queues : s'.queues = s.queues)
    (place : s'.place = s.place) {c : Nat} (inside : Inside setup (s.callers t) c) (stays : Inside setup pc c)
    (here : At setup s pc) : Inv setup s' := by
  have apart : ∀ d, Apart setup s s' d := apart_of_same idCr queues place
  exact inv.within keyed mutexes callers inside stays (fun d _ => apart d) (here.frame fun _ d _ => apart d)

/-- A step of a thread before it has a mutex. -/
theorem Inv.outside (inv : Inv setup s) (keyed : Keyed setup s') (mutexes : Mutexes setup s')
    (callers : s'.callers = Function.update s.callers t pc) (idCr : s'.idCr = s.idCr) (queues : s'.queues = s.queues)
    (place : s'.place = s.place) (before : (s.callers t).holds = none) (here : At setup s pc) : Inv setup s' := by
  have apart : ∀ d, Apart setup s s' d := apart_of_same idCr queues place
  exact inv.moved keyed mutexes callers (fun d _ => apart d) (here.frame fun _ d _ => apart d)
    fun c inside _ => absurd before inside.2

omit [DecidableEq τ] in
/-- A step that concerns neither the registry nor the run queues nor the threads. -/
theorem Inv.of_same (inv : Inv setup s) (idCr : s'.idCr = s.idCr) (idMapMutex : s'.idMapMutex = s.idMapMutex)
    (wrappers : s'.wrappers = s.wrappers) (mutex : s'.mutex = s.mutex) (place : s'.place = s.place)
    (queues : s'.queues = s.queues) (callers : s'.callers = s.callers) : Inv setup s' where
  keyed := by
    rw [Keyed, idCr]
    exact inv.keyed
  mutexes := by
    refine ⟨?_, ?_, ?_, ?_⟩
    · rw [idMapMutex, wrappers]
      exact inv.mutexes.fresh
    · rw [idMapMutex]
      exact inv.mutexes.apart
    · rw [idMapMutex, callers]
      exact inv.mutexes.known
    · rw [mutex, callers]
      exact inv.mutexes.exclusive
  threads t := by
    rw [callers]
    exact (inv.threads t).frame fun _ c _ => apart_of_same idCr queues place c
  agreed c free := by
    rw [callers] at free
    exact (apart_of_same idCr queues place c).agreed (inv.agreed c free)

variable [DecidableEq ρ]

theorem CallerEffect.inv (effect : CallerEffect setup s t s') (inv : Inv setup s)
    (keeps : Keeps setup s (.caller t)) : Inv setup s' := by
  have keyed := effect.keyed inv.keyed
  have mutexes := effect.mutexes inv.keyed inv.mutexes
  have there := inv.threads t
  cases effect with
  | known here =>
    refine inv.outside keyed mutexes rfl rfl rfl rfl ?_ trivial
    rcases here with here | here <;> rw [here] <;> rfl
  | unknown here | created here => exact inv.outside keyed mutexes rfl rfl rfl rfl (by rw [here]; rfl) trivial
  | locked here free =>
    exact inv.outside keyed mutexes rfl rfl rfl rfl (by rw [here]; rfl) (at_start (inv.agreed_of_free here free))
  | @assigned cr w here =>
    have kept := keeps cr (by rw [here]; rfl)
    rw [here] at there
    refine inv.within keyed mutexes rfl (.of_eq here rfl rfl) (.intro rfl rfl)
      (fun d other => (apart_setPlace s cr _ other).goto) ⟨agreed_assign there kept, s.place cr, ?_⟩
    simp [State.callerGoto, State.setPlace]
  | refused here =>
    rw [here] at there
    exact inv.idles keyed mutexes rfl rfl rfl rfl (.of_eq here rfl rfl) (.intro rfl rfl) there.1
  | @registered cr w here unknown =>
    rw [here] at there
    refine inv.within keyed mutexes rfl (.of_eq here rfl rfl) (.intro rfl rfl)
      (fun d other => (apart_setIdCr s (some cr) other).goto) ⟨⟨?_, ?_⟩, there.2⟩
    · simp [State.callerGoto, State.setIdCr]
    · rcases there.1 with ⟨-, absent⟩ | ⟨_, _, known, _⟩
      · exact absent
      · rw [unknown] at known
        cases known
  | @placed cr w place q here placed =>
    rw [here] at there
    obtain ⟨registered, before, assigned⟩ := there
    rw [assigned] at placed
    refine inv.within keyed mutexes rfl (.of_eq here rfl rfl) (.intro rfl rfl)
      (fun d other => (apart_setPlace s cr place other).goto) ⟨registered, ?_⟩
    have own : ((s.setPlace cr place).callerGoto t (.enqueue cr q w)).place cr = place := by
      simp [State.callerGoto, State.setPlace]
    rw [Leads, own]
    exact ⟨⟨before, q, placed⟩, Policy.place_searched placed⟩
  | @enqueued cr q w here free =>
    rw [here] at there
    exact inv.within keyed mutexes rfl (.of_eq here rfl rfl) (.intro rfl rfl)
      (fun d other => (apart_setQueue s q (members_put_other other.symm)).goto) (at_enqueued there)
  | @unregistered crid w cr here known =>
    rw [here] at there
    have own := inv.keyed crid cr known
    subst own
    refine inv.within keyed mutexes rfl (.of_eq here rfl rfl) (.intro rfl rfl) (fun d other => ?_) ⟨?_, rfl, ?_⟩
    · exact ⟨Function.update_of_ne other _ _, fun _ => rfl, fun _ _ => rfl⟩
    · simp [State.callerGoto, State.setIdCr]
    · rcases there with ⟨unknown, -⟩ | ⟨other, q, same, -, leads, inQueue⟩
      · rw [known] at unknown
        cases unknown
      · cases known.symm.trans same
        exact ⟨q, leads, inQueue⟩
  | absent here unknown =>
    rw [here] at there
    exact inv.idles keyed mutexes rfl rfl rfl rfl (.of_eq here rfl rfl) (.intro rfl rfl) there
  | thrown here high =>
    rw [here] at there
    obtain ⟨q, searched, -⟩ := at_search there
    rw [high] at searched
    cases searched
  | missing here searched missing =>
    rw [here] at there
    obtain ⟨q, searched', -, prio, found⟩ := at_search there
    cases searched.symm.trans searched'
    rw [missing] at found
    cases found
  | found here searched free found =>
    rw [here] at there
    obtain ⟨q, searched', inQueue, prio, found'⟩ := at_search there
    cases searched.symm.trans searched'
    cases found.symm.trans found'
    exact inv.idles keyed mutexes rfl rfl rfl rfl (.of_eq here rfl rfl) (.intro rfl rfl) ⟨rfl, there.1, inQueue⟩
  | acquired here free =>
    rw [here] at there
    exact inv.idles keyed mutexes rfl rfl rfl rfl (.of_eq here rfl rfl) (.intro rfl rfl) there
  | spins here taken =>
    rw [here] at there
    exact inv.idles keyed mutexes rfl rfl rfl rfl (.of_eq here rfl rfl) (.intro rfl rfl) there
  | @erased cr found q w here =>
    rw [here] at there
    exact inv.within keyed mutexes rfl (.of_eq here rfl rfl) (.intro rfl rfl)
      (fun d other => (apart_setQueue s q (members_eraseP_other other.symm)).goto) (at_erased there)
  | released here =>
    rw [here] at there
    exact inv.idles keyed mutexes rfl rfl rfl rfl (.of_eq here rfl rfl) (.intro rfl rfl) there.2
  | unlocked here =>
    rw [here] at there
    exact inv.idles keyed mutexes rfl rfl rfl rfl (.of_eq here rfl rfl) (.intro rfl rfl) there
  | @answered reply w here =>
    rw [here] at there
    refine inv.moved keyed mutexes rfl (fun d _ => ⟨rfl, fun _ => rfl, fun _ _ => rfl⟩) trivial fun c inside _ => ?_
    rw [here] at inside
    cases inside.1
    exact there.answer_agreed

variable [DecidableEq π]

omit [DecidableEq τ] in
theorem ProcessEffect.inv {p : π} (effect : ProcessEffect setup s p s') (inv : Inv setup s) : Inv setup s' := by
  cases effect <;> exact inv.of_same rfl rfl rfl rfl rfl rfl rfl

theorem step_inv {e : Event ρ π τ} (inv : Inv setup s) (keeps : Keeps setup s e) (moved : step setup s e = some s') :
    Inv setup s' := by
  cases e with
  | call t call =>
    simp only [step] at moved
    split at moved
    · rename_i here
      cases moved
      refine inv.outside inv.keyed ?_ rfl rfl rfl rfl (by rw [here]; rfl) trivial
      exact inv.mutexes.goes rfl rfl rfl rfl (by rw [here]; rfl) nofun
    · cases moved
  | caller t => exact (callerStep_effect moved).inv inv keeps
  | process p now yield => exact (processStep_effect moved).inv inv
  | setUpdateFlag cr =>
    cases moved
    exact inv.of_same rfl rfl rfl rfl rfl rfl rfl

theorem inv_init : Inv setup (machine τ setup).init where
  keyed _ _ known := by cases known
  mutexes := ⟨nofun, nofun, nofun, nofun, nofun⟩
  threads _ := trivial
  agreed _ _ := .inl ⟨rfl, fun _ => rfl⟩

end Step

/-- The number `c` is a key of the registry exactly if one run queue has a coroutine with this number, and a run
queue that has one has it once and is the one in which `RemoveCRoutine` would search for it. -/
def State.Agrees (setup : Setup ρ π) (s : State ρ π τ) (c : Nat) : Prop :=
  ((s.idCr c).isSome ↔ ∃! q, setup.members (s.queues q) c ≠ []) ∧
    ∀ q, setup.members (s.queues q) c ≠ [] → (setup.members (s.queues q) c).length = 1 ∧
      ((s.idCr c).bind fun cr => setup.policy.searched (s.place cr).pid (s.place cr)) = some q

theorem Agreed.agrees {setup : Setup ρ π} {s : State ρ π τ} {c : Nat} (agreed : Agreed setup s c) :
    s.Agrees setup c := by
  rcases agreed with ⟨unknown, absent⟩ | ⟨cr, q, known, rfl, leads, mine, others⟩
  · refine ⟨⟨fun known => ?_, fun ⟨q, present, _⟩ => absurd (absent q) present⟩,
      fun q present => absurd (absent q) present⟩
    rw [unknown] at known
    cases known
  · have present : setup.members (s.queues q) (setup.id cr) ≠ [] := by
      rw [mine]
      nofun
    have only : ∀ q', setup.members (s.queues q') (setup.id cr) ≠ [] → q' = q := by
      intro q' present
      by_contra other
      exact present (others q' other)
    refine ⟨⟨fun _ => ⟨q, present, only⟩, fun _ => by rw [known]; rfl⟩, fun q' found => ?_⟩
    rw [only q' found, mine, known]
    exact ⟨rfl, leads.2⟩

/-- The registry and the run queues agree about every number on which no call is in progress, in every run in
which no coroutine is clobbered while it is registered. -/
theorem registry_agrees [DecidableEq ρ] [DecidableEq π] [DecidableEq τ] {setup : Setup ρ π} {s : State ρ π τ}
    (reach : (machine τ setup).ReachWhen (Keeps setup) s) {c : Nat} (quiet : ∀ t, (s.callers t).id setup ≠ some c) :
    s.Agrees setup c := by
  have inv : Inv setup s := reach.invariant inv_init fun _ _ _ inv keeps moved => step_inv inv keeps moved
  exact (inv.agreed c fun t inside => quiet t inside.1).agrees

/-- Two coroutines of one name, to which the configuration gives a priority that is too high and no processor. -/
def heavySetup (ρ : Type) : Setup ρ Unit where
  policy := .choreography (fun name => if name = "heavy" then some ⟨25, none⟩ else none) 2
  id _ := 7
  name _ := "heavy"
  created _ := .new
  context _ := .classic defaultGroupName

/-- The second coroutine is refused; the first one stays in the last run queue of the pool. -/
def sameName : List (Event Bool Unit Unit) :=
  .call () (.dispatchTask true) :: List.replicate 8 (.caller ()) ++
    .call () (.dispatchTask false) :: List.replicate 5 (.caller ())

theorem sameName_agrees :
    let s := (machine Unit (heavySetup Bool)).stateAt sameName 15
    s.Agrees (heavySetup Bool) 7 ∧ s.idCr 7 = some true ∧ s.queues (.classic defaultGroupName 19) = [(19, true)] := by
  have reach : (machine Unit (heavySetup Bool)).ReachWhen (Keeps (heavySetup Bool))
      ((machine Unit (heavySetup Bool)).stateAt sameName 15) :=
    Machine.stateAt_reachWhen sameName (by decide) rfl
  exact ⟨registry_agrees reach fun _ => nofun, by decide, by decide⟩

/-- The same coroutine is dispatched again. -/
def sameRoutine : List (Event Unit Unit Unit) :=
  .call () (.dispatchTask ()) :: List.replicate 8 (.caller ()) ++
    .call () (.dispatchTask ()) :: List.replicate 5 (.caller ())

theorem sameRoutine_disagrees :
    let s := (machine Unit (heavySetup Unit)).stateAt sameRoutine 15
    (machine Unit (heavySetup Unit)).Reach s ∧ (∀ t, (s.callers t).id (heavySetup Unit) ≠ some 7) ∧
      ¬ s.Agrees (heavySetup Unit) 7 := by
  refine ⟨Machine.stateAt_reach (M := machine Unit (heavySetup Unit)) sameRoutine rfl, fun _ => nofun, fun agrees => ?_⟩
  have found := (agrees.2 (.classic defaultGroupName 19) (by decide)).2
  revert found
  decide

end CyberRT.Scheduler

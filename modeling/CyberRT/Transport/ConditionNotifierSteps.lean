import CyberRT.Lib.Threads
import CyberRT.Transport.ConditionNotifier

namespace CyberRT.ConditionNotifier
open Concur
universe u v

namespace Steps

/-- The next access of `Notify` or `Listen` to the indicator. A thread that was shut down takes no more steps. -/
inductive Pc (ι : Type u)
  | absent
  | idle
  | writeInfo (seq : Nat) (info : ι)
  | writeSeq (seq : Nat) (info : ι)
  | readSeq
  | readInfo (idx : Nat)

/-- A thread with its `next_seq_`, and with what its calls of `Listen` returned: the number, which is one less than
`next_seq_` then is, and the info. -/
structure Local (ι : Type u) where
  pc : Pc ι
  nextSeq : Nat
  returned : List (Nat × ι)

/-- The indicator, with the infos of the calls of `Notify` in the order of their numbers, and with the slots whose
number some call has written. -/
structure Shared (ι : Type u) where
  indicator : Indicator ι
  obtained : List ι
  written : Nat → Bool

inductive Choice (ι : Type u)
  | create
  | notify (info : ι)
  | listen
  | go

variable {ι : Type u} {τ : Type v}

/-- One access to the indicator. -/
def act (r : Shared ι) (l : Local ι) (c : Choice ι) : Option (Shared ι × Local ι) :=
  match l.pc, c with
  | .absent, .create => some (r, { l with pc := .idle, nextSeq := r.indicator.nextSeq })
  | .idle, .notify info =>
    some ({ r with indicator := r.indicator.fetchAddNextSeq, obtained := r.obtained ++ [info] },
      { l with pc := .writeInfo r.indicator.nextSeq info })
  | .writeInfo seq info, .go =>
    some ({ r with indicator := r.indicator.writeInfo (seq % kBufLength) info }, { l with pc := .writeSeq seq info })
  | .writeSeq seq _, .go =>
    some ({ r with
        indicator := r.indicator.writeSeq (seq % kBufLength) seq
        written := Function.update r.written (seq % kBufLength) true },
      { l with pc := .idle })
  | .idle, .listen => some (r, if r.indicator.nextSeq ≠ l.nextSeq then { l with pc := .readSeq } else l)
  | .readSeq, .go =>
    let idx := l.nextSeq % kBufLength
    let actualSeq := r.indicator.seqs idx
    some (r, if l.nextSeq ≤ actualSeq then { l with pc := .readInfo idx, nextSeq := actualSeq }
      else { l with pc := .idle })
  | .readInfo idx, .go =>
    some (r, { l with
      pc := .idle
      nextSeq := (l.nextSeq + 1) % 2 ^ 64
      returned := l.returned ++ [(l.nextSeq, r.indicator.infos idx)] })
  | _, _ => none

/-- Any number of threads, on a freshly created indicator. -/
def machine (τ : Type v) [DecidableEq τ] (unwritten : ι) :
    Machine (Config τ (Shared ι) (Local ι)) (τ × Choice ι) :=
  Config.machine ⟨.init unwritten, [], fun _ => false⟩ (fun _ => ⟨.absent, 0, []⟩) act

/-- The info is that of a call of `Notify` that obtained the number. -/
def Shared.Obtained (r : Shared ι) (seq : Nat) (info : ι) : Prop :=
  ∃ number, number % 2 ^ 64 = seq ∧ r.obtained[number]? = some info

/-- Whatever `Listen` returned is of the call that obtained its number. -/
def Returned (s : Config τ (Shared ι) (Local ι)) : Prop :=
  ∀ t, ∀ x ∈ (s.thread t).returned, s.shared.Obtained x.1 x.2

/-- Between the two writes of a slot. -/
def Pc.Writing : Pc ι → Nat → Prop
  | .writeSeq seq _, idx => seq % kBufLength = idx
  | _, _ => False

/-- Between the two reads of a slot. -/
def Pc.Reading : Pc ι → Nat → Prop
  | .readInfo at_, idx => at_ = idx
  | _, _ => False

def Pc.Ok (r : Shared ι) (nextSeq : Nat) : Pc ι → Prop
  | .readSeq => nextSeq = 0 → r.written 0 = true
  | _ => True

def Pc.Apart (r : Shared ι) (nextSeq : Nat) : Pc ι → Pc ι → Prop
  | .writeInfo seq _, other => ¬other.Writing (seq % kBufLength) ∧ ¬other.Reading (seq % kBufLength)
  | .readSeq, other => nextSeq ≤ r.indicator.seqs (nextSeq % kBufLength) → ¬other.Writing (nextSeq % kBufLength)
  | _, _ => True

/-- The number 0 is not looked for in a slot that was never written. No info is written while another thread is
between its two writes or its two reads of the slot, and no number that passes the test of `Listen` is read while
another thread is between its two writes. -/
def Apart (s : Config τ (Shared ι) (Local ι)) (e : τ × Choice ι) : Prop :=
  (s.thread e.1).pc.Ok s.shared (s.thread e.1).nextSeq ∧
    ∀ u, u ≠ e.1 → (s.thread e.1).pc.Apart s.shared (s.thread e.1).nextSeq (s.thread u).pc

instance (pc : Pc ι) (idx : Nat) : Decidable (pc.Writing idx) :=
  match pc with
  | .writeSeq seq _ => inferInstanceAs (Decidable (seq % kBufLength = idx))
  | .absent | .idle | .writeInfo _ _ | .readSeq | .readInfo _ => inferInstanceAs (Decidable False)

instance (pc : Pc ι) (idx : Nat) : Decidable (pc.Reading idx) :=
  match pc with
  | .readInfo at_ => inferInstanceAs (Decidable (at_ = idx))
  | .absent | .idle | .writeInfo _ _ | .writeSeq _ _ | .readSeq => inferInstanceAs (Decidable False)

instance (r : Shared ι) (nextSeq : Nat) (pc : Pc ι) : Decidable (pc.Ok r nextSeq) :=
  match pc with
  | .readSeq => inferInstanceAs (Decidable (nextSeq = 0 → r.written 0 = true))
  | .absent | .idle | .writeInfo _ _ | .writeSeq _ _ | .readInfo _ => inferInstanceAs (Decidable True)

instance (r : Shared ι) (nextSeq : Nat) (pc other : Pc ι) : Decidable (pc.Apart r nextSeq other) :=
  match pc with
  | .writeInfo seq _ =>
    inferInstanceAs (Decidable (¬other.Writing (seq % kBufLength) ∧ ¬other.Reading (seq % kBufLength)))
  | .readSeq =>
    inferInstanceAs (Decidable (nextSeq ≤ r.indicator.seqs (nextSeq % kBufLength) →
      ¬other.Writing (nextSeq % kBufLength)))
  | .absent | .idle | .writeSeq _ _ | .readInfo _ => inferInstanceAs (Decidable True)

instance (s : Config Bool (Shared ι) (Local ι)) (e : Bool × Choice ι) : Decidable (Apart s e) :=
  inferInstanceAs (Decidable ((s.thread e.1).pc.Ok s.shared (s.thread e.1).nextSeq ∧
    ∀ u, u ≠ e.1 → (s.thread e.1).pc.Apart s.shared (s.thread e.1).nextSeq (s.thread u).pc))

section Invariant
variable {r r' : Shared ι} {l m : Local ι}

theorem Shared.Obtained.grow {seq : Nat} {info : ι} (obtained : r.Obtained seq info)
    (grows : r.obtained <+: r'.obtained) : r'.Obtained seq info := by
  obtain ⟨number, same, here⟩ := obtained
  obtain ⟨more, rest⟩ := grows
  refine ⟨number, same, ?_⟩
  rw [← rest, List.getElem?_append_left (List.getElem?_eq_some_iff.mp here).1, here]

/-- What is known of a thread at its next access. -/
def PcKnows (r : Shared ι) (nextSeq : Nat) : Pc ι → Prop
  | .writeInfo seq info => r.Obtained seq info
  | .writeSeq seq info => r.Obtained seq info ∧ r.indicator.infos (seq % kBufLength) = info
  | .readInfo idx => r.Obtained nextSeq (r.indicator.infos idx)
  | _ => True

def Knows (r : Shared ι) (l : Local ι) : Prop :=
  PcKnows r l.nextSeq l.pc ∧ ∀ x ∈ l.returned, r.Obtained x.1 x.2

/-- Two threads are not both at a slot, if one is between its two writes. -/
def Separate (l m : Local ι) : Prop :=
  ∀ idx, l.pc.Writing idx → ¬m.pc.Writing idx ∧ ¬m.pc.Reading idx

/-- A slot whose number was never written holds the number 0. -/
def Unwritten (r : Shared ι) : Prop :=
  r.indicator.nextSeq = r.obtained.length % 2 ^ 64 ∧ ∀ idx, r.written idx = false → r.indicator.seqs idx = 0

/-- Outside the two writes, number and info of a slot belong together. -/
def Slots (s : Config τ (Shared ι) (Local ι)) : Prop :=
  ∀ idx, s.shared.written idx = true → (∀ t, ¬(s.thread t).pc.Writing idx) →
    s.shared.Obtained (s.shared.indicator.seqs idx) (s.shared.indicator.infos idx)

/-- What a thread knows stays true when numbers are given out and other slots are written. -/
theorem Knows.keep (knows : Knows r l) (grows : r.obtained <+: r'.obtained)
    (same : ∀ idx, l.pc.Writing idx ∨ l.pc.Reading idx → r'.indicator.infos idx = r.indicator.infos idx) :
    Knows r' l := by
  obtain ⟨here, returned⟩ := knows
  refine ⟨?_, fun x member => (returned x member).grow grows⟩
  cases at_ : l.pc with
  | absent => trivial
  | idle => trivial
  | readSeq => trivial
  | writeInfo seq info =>
    rw [at_] at here
    exact here.grow grows
  | writeSeq seq info =>
    rw [at_] at here same
    exact ⟨here.1.grow grows, (same _ (.inl rfl)).trans here.2⟩
  | readInfo idx =>
    rw [at_] at here same
    simp only [PcKnows, same idx (.inr rfl)]
    exact here.grow grows

/-- Threads stay separate when one of them is at no slot. -/
theorem separate_of_none (writing : ∀ idx, ¬l.pc.Writing idx) (reading : ∀ idx, ¬l.pc.Reading idx) (m : Local ι) :
    Separate l m ∧ Separate m l :=
  ⟨fun idx here => absurd here (writing idx), fun idx _ => ⟨writing idx, reading idx⟩⟩

end Invariant

section Runs
variable [DecidableEq τ] {s s' : Config τ (Shared ι) (Local ι)} {t : τ}

/-- Slots that are not written to still belong together, if the thread that moves was not between its two writes. -/
theorem Slots.keep {r : Shared ι} {l : Local ι} (slots : Slots s) {idx : Nat}
    (written : r.written idx = s.shared.written idx) (grows : s.shared.obtained <+: r.obtained)
    (seqs : r.indicator.seqs idx = s.shared.indicator.seqs idx)
    (infos : r.indicator.infos idx = s.shared.indicator.infos idx)
    (outside : ¬(s.thread t).pc.Writing idx) (present : r.written idx = true)
    (none_ : ∀ u, ¬(Function.update s.thread t l u).pc.Writing idx) :
    r.Obtained (r.indicator.seqs idx) (r.indicator.infos idx) := by
  rw [seqs, infos]
  refine (slots idx (written ▸ present) fun u => ?_).grow grows
  by_cases same : u = t
  · exact same ▸ outside
  · have other := none_ u
    rwa [Function.update_of_ne same] at other

/-- Both parts of the invariant. -/
structure Inv (s : Config τ (Shared ι) (Local ι)) : Prop where
  holds : s.Holds Unwritten Knows Separate
  slots : Slots s

/-- A thread that touches no slot, before and after its step, disturbs nobody. -/
theorem Inv.quiet (inv : Inv s) {l : Local ι} (knows : Knows s.shared l)
    (before : ∀ idx, ¬(s.thread t).pc.Writing idx) (writing : ∀ idx, ¬l.pc.Writing idx)
    (reading : ∀ idx, ¬l.pc.Reading idx) : Inv ⟨s.shared, Function.update s.thread t l⟩ where
  holds := inv.holds.move ⟨inv.holds.shared, knows⟩ fun u _ =>
    ⟨inv.holds.thread u, separate_of_none writing reading _⟩
  slots := fun idx present none_ =>
    inv.slots.keep rfl List.prefix_rfl rfl rfl (before idx) present none_

/-- `fetch_add`: the call obtains the next number. -/
theorem inv_notify (inv : Inv s) (info : ι) (here : (s.thread t).pc = .idle) :
    Inv ⟨{ s.shared with indicator := s.shared.indicator.fetchAddNextSeq, obtained := s.shared.obtained ++ [info] },
      Function.update s.thread t { s.thread t with pc := .writeInfo s.shared.indicator.nextSeq info }⟩ := by
  have grows : s.shared.obtained <+: s.shared.obtained ++ [info] := List.prefix_append ..
  have counted := inv.holds.shared.1
  refine ⟨inv.holds.move ⟨⟨?_, inv.holds.shared.2⟩, ?_, ?_⟩ fun u _ => ⟨?_, ?_⟩, fun idx present none_ => ?_⟩
  · simp only [Indicator.fetchAddNextSeq, List.length_append, List.length_singleton, counted]
    omega
  · exact ⟨s.shared.obtained.length, counted.symm, List.getElem?_concat_length⟩
  · exact fun x member => ((inv.holds.thread t).2 x member).grow grows
  · exact (inv.holds.thread u).keep grows fun _ _ => rfl
  · refine separate_of_none ?_ ?_ _
    · exact fun _ => id
    · exact fun _ => id
  · exact inv.slots.keep rfl grows rfl rfl (by rw [here]; exact id) present none_

/-- The info is written. -/
theorem inv_writeInfo (inv : Inv s) {seq : Nat} {info : ι} (here : (s.thread t).pc = .writeInfo seq info)
    (clear : ∀ u, u ≠ t → ¬(s.thread u).pc.Writing (seq % kBufLength) ∧ ¬(s.thread u).pc.Reading (seq % kBufLength)) :
    Inv ⟨{ s.shared with indicator := s.shared.indicator.writeInfo (seq % kBufLength) info },
      Function.update s.thread t { s.thread t with pc := .writeSeq seq info }⟩ := by
  obtain ⟨knows, returned⟩ := inv.holds.thread t
  rw [here] at knows
  refine ⟨inv.holds.move ⟨inv.holds.shared, ⟨knows, Function.update_self ..⟩, returned⟩ fun u other => ⟨?_, ?_, ?_⟩,
    fun idx present none_ => ?_⟩
  · refine (inv.holds.thread u).keep List.prefix_rfl fun idx touches => Function.update_of_ne ?_ ..
    rintro rfl
    exact touches.elim (clear u other).1 (clear u other).2
  · rintro idx rfl
    exact clear u other
  · rintro idx writing
    refine ⟨?_, id⟩
    rintro rfl
    exact (clear u other).1 writing
  · have different : idx ≠ seq % kBufLength := by
      rintro rfl
      refine none_ t ?_
      dsimp only
      rw [Function.update_self]
      rfl
    exact inv.slots.keep rfl List.prefix_rfl rfl (Function.update_of_ne different ..) (by rw [here]; exact id)
      present none_

/-- The number is written, and the slot is whole again. -/
theorem inv_writeSeq (inv : Inv s) {seq : Nat} {info : ι} (here : (s.thread t).pc = .writeSeq seq info) :
    Inv ⟨{ s.shared with
        indicator := s.shared.indicator.writeSeq (seq % kBufLength) seq
        written := Function.update s.shared.written (seq % kBufLength) true },
      Function.update s.thread t { s.thread t with pc := .idle }⟩ := by
  obtain ⟨knows, returned⟩ := inv.holds.thread t
  rw [here] at knows
  refine ⟨inv.holds.move ⟨⟨inv.holds.shared.1, fun idx absent => ?_⟩, trivial, returned⟩ fun u _ => ⟨?_, ?_⟩,
    fun idx present none_ => ?_⟩
  · dsimp only at absent ⊢
    have different : idx ≠ seq % kBufLength := by
      rintro rfl
      rw [Function.update_self] at absent
      cases absent
    rw [Function.update_of_ne different] at absent
    exact (Function.update_of_ne different ..).trans (inv.holds.shared.2 idx absent)
  · exact (inv.holds.thread u).keep List.prefix_rfl fun _ _ => rfl
  · refine separate_of_none ?_ ?_ _
    · exact fun _ => id
    · exact fun _ => id
  · by_cases same : idx = seq % kBufLength
    · subst same
      simp only [Indicator.writeSeq, Function.update_self]
      rw [knows.2]
      exact knows.1
    · exact inv.slots.keep (Function.update_of_ne same ..) List.prefix_rfl (Function.update_of_ne same ..) rfl
        (by rw [here]; exact fun equal => same equal.symm) present none_

/-- The number is read, outside the two writes of the slot. -/
theorem inv_readSeq (inv : Inv s) (here : (s.thread t).pc = .readSeq)
    (zero : (s.thread t).nextSeq = 0 → s.shared.written 0 = true)
    (clear : ∀ u, u ≠ t → ¬(s.thread u).pc.Writing ((s.thread t).nextSeq % kBufLength))
    (found : (s.thread t).nextSeq ≤ s.shared.indicator.seqs ((s.thread t).nextSeq % kBufLength)) :
    Inv ⟨s.shared, Function.update s.thread t
      { s.thread t with
        pc := .readInfo ((s.thread t).nextSeq % kBufLength)
        nextSeq := s.shared.indicator.seqs ((s.thread t).nextSeq % kBufLength) }⟩ := by
  have none_ : ∀ u, ¬(s.thread u).pc.Writing ((s.thread t).nextSeq % kBufLength) := by
    intro u
    by_cases same : u = t
    · rw [same, here]
      exact id
    · exact clear u same
  have present : s.shared.written ((s.thread t).nextSeq % kBufLength) = true := by
    by_contra absent
    have empty := inv.holds.shared.2 _ (Bool.eq_false_iff.mpr absent)
    have first : (s.thread t).nextSeq = 0 := by omega
    rw [first] at absent
    exact absent (zero first)
  have whole := inv.slots _ present none_
  refine ⟨inv.holds.move ⟨inv.holds.shared, whole, (inv.holds.thread t).2⟩ fun u _ =>
    ⟨inv.holds.thread u, ?_, ?_⟩, fun idx there outside => ?_⟩
  · exact fun _ writing => writing.elim
  · intro idx writing
    refine ⟨id, ?_⟩
    rintro rfl
    exact none_ u writing
  · exact inv.slots.keep rfl List.prefix_rfl rfl rfl (by rw [here]; exact id) there outside

theorem inv_step {e : τ × Choice ι} (inv : Inv s) (allowed : Apart s e)
    (step : Config.move act s e = some s') : Inv s' := by
  obtain ⟨t, c⟩ := e
  obtain ⟨r, l, moved, rfl⟩ := Config.move_eq_some.mp step
  obtain ⟨ok, clear⟩ := allowed
  have returned := (inv.holds.thread t).2
  unfold act at moved
  split at moved
  · rename_i here
    cases moved
    exact inv.quiet ⟨trivial, returned⟩ (by rw [here]; exact fun _ => id) (fun _ => id) (fun _ => id)
  · rename_i info here
    cases moved
    exact inv_notify inv info here
  · rename_i seq info here
    cases moved
    simp only [here, Pc.Apart] at clear
    exact inv_writeInfo inv here clear
  · rename_i seq info here
    cases moved
    exact inv_writeSeq inv here
  · rename_i here
    cases moved
    split
    · exact inv.quiet ⟨trivial, returned⟩ (by rw [here]; exact fun _ => id) (fun _ => id) (fun _ => id)
    · have idle : ∀ idx, ¬(s.thread t).pc.Writing idx := by rw [here]; exact fun _ => id
      exact inv.quiet (inv.holds.thread t) idle idle (by rw [here]; exact fun _ => id)
  · rename_i here
    cases moved
    simp only [here, Pc.Apart, Pc.Ok] at clear ok
    split
    · rename_i found
      exact inv_readSeq inv here ok (fun u other => clear u other found) found
    · exact inv.quiet ⟨trivial, returned⟩ (by rw [here]; exact fun _ => id) (fun _ => id) (fun _ => id)
  · rename_i idx here
    cases moved
    refine inv.quiet ⟨trivial, ?_⟩ (by rw [here]; exact fun _ => id) (fun _ => id) (fun _ => id)
    intro x member
    rcases List.mem_append.mp member with old | new
    · exact returned x old
    · obtain rfl := List.mem_singleton.mp new
      have knows := (inv.holds.thread t).1
      rw [here] at knows
      exact knows
  · cases moved

/-- In a run in which no call interferes with another at a slot, whatever `Listen` returns is of the call of `Notify`
that obtained its number. -/
theorem returned_of_apart {unwritten : ι} (reach : (machine τ unwritten).ReachWhen Apart s) :
    Returned s := by
  have inv : Inv s := by
    refine reach.invariant (P := Inv) ?_ fun _ _ _ inv allowed step => inv_step inv allowed step
    refine ⟨⟨⟨rfl, fun _ _ => rfl⟩, fun _ => ⟨trivial, ?_⟩, fun _ _ _ _ writing => writing.elim⟩, ?_⟩
    · exact fun x member => absurd member List.not_mem_nil
    · intro idx present
      cases present
  exact fun t => (inv.holds.thread t).2

/-- A whole `Notify`, and then a whole round of `Listen`. -/
theorem returned_of_apart_run :
    let es : List (Bool × Choice Nat) := [(false, .create), (true, .create), (false, .notify 7), (false, .go),
      (false, .go), (true, .listen), (true, .go), (true, .go)]
    let s := (machine Bool 0).stateAt es es.length
    (s.thread true).returned = [(0, 7)] ∧ Returned s := by
  intro es s
  have reach : (machine Bool 0).ReachWhen Apart s :=
    Machine.stateAt_reachWhen es (by decide) (by decide)
  exact ⟨by decide, returned_of_apart reach⟩

/-- A listener on a fresh indicator reads after the `fetch_add` of the first `Notify` and before its writes: slot 0
holds the number 0 that it looks for, and an info that nobody has written. -/
theorem returned_unwritten : ¬∀ s, (machine Bool 0).Reach s → Returned s := by
  intro always
  let es : List (Bool × Choice Nat) := [(false, .create), (true, .create), (false, .notify 7), (true, .listen),
    (true, .go), (true, .go)]
  obtain ⟨number, _, found⟩ := always _ (Machine.stateAt_reach es (by decide)) true (0, 0) (by decide)
  have obtained : ((machine Bool 0).stateAt es es.length).shared.obtained = [7] := by decide
  rw [obtained] at found
  have member := List.mem_of_getElem? found
  simp at member

end Runs

end Steps

end CyberRT.ConditionNotifier

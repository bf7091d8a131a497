import CyberRT.Base.BoundedQueue

namespace CyberRT.BoundedQueue
open Concur
variable {T : Type}

/-- Positions less than one turn of the ring apart have different slots. -/
theorem slot_ne {a b n : Nat} (different : a ≠ b) (left : a < b + n) (right : b < a + n) :
    a % n ≠ b % n := by
  intro same
  rcases Nat.lt_or_gt_of_ne different with less | less
  · have turns := Nat.sub_mod_eq_zero_of_mod_eq same.symm
    rw [Nat.mod_eq_of_lt (by omega)] at turns
    omega
  · have turns := Nat.sub_mod_eq_zero_of_mod_eq same
    rw [Nat.mod_eq_of_lt (by omega)] at turns
    omega

/-- The counters are ordered, the ring never holds more than its slots, every committed element
that is still waiting sits in its slot, and what was taken is what was ticketed first. -/
structure Inv (q : BoundedQueue T) : Prop where
  head_lt_commit : q.head < q.commit
  commit_le_tail : q.commit ≤ q.tail
  tail_bound : q.tail + 1 ≤ q.head + max 2 q.poolSize
  tickets : q.enqueued.length + 1 = q.tail
  waiting : ∀ k, q.head < k → k < q.commit → q.enqueued[k - 1]? = some (q.pool (k % q.poolSize))
  taken : q.dequeued = q.enqueued.take q.head

/-- The ticket a thread holds between its tail CAS and its commit CAS. -/
def Local.ticket? : Local T → Option Nat
  | .enqStore _ oldTail => some oldTail
  | .enqCasCommit oldTail => some oldTail
  | _ => none

/-- A ticket is not committed and its element is recorded; only the thread that holds it
commits it. -/
structure Ticket (q : BoundedQueue T) (ticket : Nat) (element : T) : Prop where
  uncommitted : q.commit ≤ ticket
  issued : ticket < q.tail
  recorded : q.enqueued[ticket - 1]? = some element
  ring : 2 ≤ q.poolSize

/-- What a thread knows at each of its program points. Values loaded from `head` and `tail` may
be stale: the conclusions drawn from them hold only while the counter has not moved. -/
def At (q : BoundedQueue T) : Local T → Prop
  | .enqCasTail _ oldTail => oldTail ≤ q.tail ∧ (q.tail = oldTail → oldTail + 2 ≤ q.head + q.poolSize)
  | .enqStore element oldTail => Ticket q oldTail element
  | .enqCasCommit oldTail =>
    ∃ element, Ticket q oldTail element ∧ q.pool (oldTail % q.poolSize) = element
  | .deqLoadCommit oldHead => oldHead ≤ q.head
  | .deqRead oldHead => oldHead ≤ q.head ∧ (q.head = oldHead → oldHead + 1 < q.commit)
  | .deqCasHead oldHead element => oldHead ≤ q.head ∧
    (q.head = oldHead → oldHead + 1 < q.commit ∧ q.enqueued[oldHead]? = some element)
  | .enqLoadHead _ oldTail => oldTail ≤ q.tail
  | _ => True

/-- Two threads never hold the same ticket. -/
def Apart (l m : Local T) : Prop :=
  ∀ k, l.ticket? = some k → m.ticket? = some k → False

theorem inv_init [Inhabited T] (size : Nat) : Inv (init size : BoundedQueue T) where
  head_lt_commit := Nat.one_pos
  commit_le_tail := le_rfl
  tail_bound := by simp only [init]; omega
  tickets := rfl
  waiting := by simp only [init]; omega
  taken := rfl

/-- A recorded ticket stays recorded when a later one is issued. -/
theorem recorded_append {xs : List T} {i : Nat} {x y : T} (recorded : xs[i]? = some x) :
    (xs ++ [y])[i]? = some x := by
  rw [List.getElem?_append_left (List.getElem?_eq_some_iff.mp recorded).1, recorded]

theorem Inv.ticket {q : BoundedQueue T} (inv : Inv q) (element : T) (room : q.tail + 2 ≤ q.head + q.poolSize) :
    Inv { q with tail := q.tail + 1, enqueued := q.enqueued ++ [element] } where
  head_lt_commit := inv.head_lt_commit
  commit_le_tail := Nat.le_succ_of_le inv.commit_le_tail
  tail_bound := by simp only; omega
  tickets := by simpa using inv.tickets
  waiting k lower upper := recorded_append (inv.waiting k lower upper)
  taken := by
    have ordered := inv.head_lt_commit
    have issued := inv.commit_le_tail
    have tickets := inv.tickets
    exact inv.taken.trans (List.take_append_of_le_length (by omega)).symm

/-- Storing under a ticket touches no other position of the ring that is in use. -/
theorem Ticket.slot_ne {q : BoundedQueue T} (inv : Inv q) {ticket k : Nat} {element : T}
    (held : Ticket q ticket element) (lower : q.head < k) (upper : k < q.tail) (different : k ≠ ticket) :
    k % q.poolSize ≠ ticket % q.poolSize := by
  have bound := inv.tail_bound
  have ordered := inv.head_lt_commit
  have uncommitted := held.uncommitted
  have issued := held.issued
  have ring := held.ring
  rw [max_eq_right ring] at bound
  exact BoundedQueue.slot_ne different (by omega) (by omega)

theorem Inv.store {q : BoundedQueue T} (inv : Inv q) {ticket : Nat} {element : T}
    (held : Ticket q ticket element) :
    Inv { q with pool := Function.update q.pool (ticket % q.poolSize) element } where
  head_lt_commit := inv.head_lt_commit
  commit_le_tail := inv.commit_le_tail
  tail_bound := inv.tail_bound
  tickets := inv.tickets
  waiting k lower upper := by
    dsimp only at lower upper ⊢
    have uncommitted := held.uncommitted
    have issued := inv.commit_le_tail
    rw [Function.update_of_ne (held.slot_ne inv lower (by omega) (by omega))]
    exact inv.waiting k lower upper
  taken := inv.taken

theorem Inv.commit {q : BoundedQueue T} (inv : Inv q) {element : T}
    (held : Ticket q q.commit element) (stored : q.pool (q.commit % q.poolSize) = element) :
    Inv { q with commit := q.commit + 1 } where
  head_lt_commit := Nat.lt_succ_of_lt inv.head_lt_commit
  commit_le_tail := held.issued
  tail_bound := inv.tail_bound
  tickets := inv.tickets
  waiting k lower upper := by
    rcases Nat.lt_succ_iff_lt_or_eq.mp upper with before | rfl
    · exact inv.waiting k lower before
    · rw [stored, held.recorded]
  taken := inv.taken

theorem Inv.take {q : BoundedQueue T} (inv : Inv q) {element : T} (committed : q.head + 1 < q.commit)
    (recorded : q.enqueued[q.head]? = some element) :
    Inv { q with head := q.head + 1, dequeued := q.dequeued ++ [element] } where
  head_lt_commit := committed
  commit_le_tail := inv.commit_le_tail
  tail_bound := by have bound := inv.tail_bound; simp only; omega
  tickets := inv.tickets
  waiting k lower upper := inv.waiting k (Nat.lt_of_succ_lt lower) upper
  taken := by rw [inv.taken, List.take_add_one, recorded, Option.toList_some]

/-- The full test compares ring indexes; while the tail has not moved since it was loaded, a
test that does not refuse leaves room for one more ticket. -/
theorem Inv.room {q : BoundedQueue T} (inv : Inv q) (positive : 0 < q.poolSize)
    (differ : (q.tail + 1) % q.poolSize ≠ q.head % q.poolSize) : q.tail + 2 ≤ q.head + q.poolSize := by
  have bound := inv.tail_bound
  have ordered := inv.head_lt_commit
  have issued := inv.commit_le_tail
  have notOne : q.poolSize ≠ 1 := by
    intro one
    simp [one, Nat.mod_one] at differ
  have notFull : q.tail + 1 ≠ q.head + q.poolSize := by
    intro full
    rw [full, Nat.add_mod_right] at differ
    exact differ rfl
  omega

theorem act_own (q : BoundedQueue T) (l : Local T) (c : Choice T) (q' : BoundedQueue T) (l' : Local T)
    (inv : Inv q) (here : At q l) (step : act q l c = some (q', l')) : Inv q' ∧ At q' l' := by
  cases act_cases step with
  | enqueue | dequeue | full | enqReturn | empty | deqReturn => exact ⟨inv, trivial⟩
  | loadTail | loadHead | retryTail | retryHead => exact ⟨inv, le_rfl⟩
  | retryCommit => exact ⟨inv, here⟩
  | room element oldTail positive differ =>
    refine ⟨inv, here, fun unmoved => ?_⟩
    subst unmoved
    exact inv.room positive differ
  | ticket element =>
    have room := here.2 rfl
    refine ⟨inv.ticket element room, inv.commit_le_tail, Nat.lt_succ_self _, ?_, ?_⟩
    · have tickets := inv.tickets
      dsimp only
      rw [List.getElem?_append_right (by omega), show q.tail - 1 - q.enqueued.length = 0 by omega]
      rfl
    · have bound := inv.tail_bound
      have ordered := inv.head_lt_commit
      have issued := inv.commit_le_tail
      dsimp only
      omega
  | store element oldTail =>
    refine ⟨inv.store here, element, ?_, ?_⟩
    · exact ⟨here.uncommitted, here.issued, here.recorded, here.ring⟩
    · simp
  | commit =>
    obtain ⟨element, held, stored⟩ := here
    exact ⟨inv.commit held stored, trivial⟩
  | waiting oldHead notEmpty =>
    refine ⟨inv, here, fun unmoved => ?_⟩
    have ordered := inv.head_lt_commit
    omega
  | read oldHead =>
    refine ⟨inv, here.1, fun unmoved => ⟨here.2 unmoved, ?_⟩⟩
    exact inv.waiting (oldHead + 1) (by omega) (here.2 unmoved)
  | take element =>
    obtain ⟨committed, recorded⟩ := here.2 rfl
    exact ⟨inv.take committed recorded, trivial⟩

/-- How the shared fields may change: the counters only grow and no recorded ticket changes. -/
structure Grows (q q' : BoundedQueue T) : Prop where
  poolSize : q'.poolSize = q.poolSize
  head : q.head ≤ q'.head
  tail : q.tail ≤ q'.tail
  commit : q.commit ≤ q'.commit
  recorded : ∀ (i : Nat) (x : T), q.enqueued[i]? = some x → q'.enqueued[i]? = some x

theorem act_grows {q q' : BoundedQueue T} {l l' : Local T} {c : Choice T}
    (step : act q l c = some (q', l')) : Grows q q' := by
  cases act_cases step with
  | ticket element =>
    exact ⟨rfl, le_rfl, Nat.le_succ _, le_rfl, fun _ _ recorded => recorded_append recorded⟩
  | commit => exact ⟨rfl, le_rfl, le_rfl, Nat.le_succ _, fun _ _ recorded => recorded⟩
  | take => exact ⟨rfl, Nat.le_succ _, le_rfl, le_rfl, fun _ _ recorded => recorded⟩
  | _ => exact ⟨rfl, le_rfl, le_rfl, le_rfl, fun _ _ recorded => recorded⟩

theorem Ticket.grows {q q' : BoundedQueue T} {ticket : Nat} {element : T} (grows : Grows q q')
    (uncommitted : q'.commit ≤ ticket) (held : Ticket q ticket element) : Ticket q' ticket element :=
  ⟨uncommitted, held.issued.trans_le grows.tail, grows.recorded _ _ held.recorded,
    grows.poolSize ▸ held.ring⟩

/-- What a thread knows survives growth, provided its own ticket stays uncommitted and its own
slot untouched. A stale counter stays stale. -/
theorem At.grows {q q' : BoundedQueue T} {m : Local T} (grows : Grows q q')
    (ticket : ∀ k, m.ticket? = some k → q'.commit ≤ k ∧ q'.pool (k % q.poolSize) = q.pool (k % q.poolSize))
    (there : At q m) : At q' m := by
  have head := grows.head
  have tail := grows.tail
  have commit := grows.commit
  cases m with
  | enqLoadHead element oldTail => exact Nat.le_trans there tail
  | enqCasTail element oldTail =>
    obtain ⟨stale, room⟩ := there
    refine ⟨stale.trans tail, fun unmoved => ?_⟩
    have before := room (by omega)
    rw [grows.poolSize]
    omega
  | enqStore element oldTail => exact Ticket.grows grows (ticket oldTail rfl).1 there
  | enqCasCommit oldTail =>
    obtain ⟨element, held, stored⟩ := there
    obtain ⟨uncommitted, untouched⟩ := ticket oldTail rfl
    refine ⟨element, held.grows grows uncommitted, ?_⟩
    rw [grows.poolSize, untouched, stored]
  | deqLoadCommit oldHead => exact Nat.le_trans there head
  | deqRead oldHead =>
    refine ⟨there.1.trans head, fun unmoved => ?_⟩
    have before := there.2 (by have := there.1; omega)
    omega
  | deqCasHead oldHead element =>
    refine ⟨there.1.trans head, fun unmoved => ?_⟩
    obtain ⟨committed, recorded⟩ := there.2 (by have := there.1; omega)
    exact ⟨by omega, grows.recorded _ _ recorded⟩
  | _ => trivial

/-- The assertion at a program point says of a held ticket that it is a ticket. -/
theorem At.ticket {q : BoundedQueue T} {m : Local T} {k : Nat} (there : At q m)
    (held : m.ticket? = some k) : ∃ element, Ticket q k element := by
  cases m with
  | enqStore element oldTail => cases held; exact ⟨element, there⟩
  | enqCasCommit oldTail =>
    cases held
    obtain ⟨element, ticket, _⟩ := there
    exact ⟨element, ticket⟩
  | _ => cases held

/-- A step of one thread as every other thread sees it: it keeps their tickets uncommitted and
their slots untouched. -/
theorem act_keeps_ticket {q q' : BoundedQueue T} {l l' m : Local T} {c : Choice T} {k : Nat}
    (inv : Inv q) (here : At q l) (there : At q m) (apart : Apart l m) (step : act q l c = some (q', l'))
    (held : m.ticket? = some k) : q'.commit ≤ k ∧ q'.pool (k % q.poolSize) = q.pool (k % q.poolSize) := by
  obtain ⟨element, ticket⟩ := there.ticket held
  have uncommitted := ticket.uncommitted
  cases act_cases step with
  | store mine oldTail =>
    have different : k ≠ oldTail := fun same => apart k (by rw [same]; rfl) held
    refine ⟨uncommitted, Function.update_of_ne ?_ _ _⟩
    exact Ticket.slot_ne inv here (inv.head_lt_commit.trans_le uncommitted) ticket.issued different
  | commit =>
    have different : k ≠ q.commit := fun same => apart k (by rw [same]; rfl) held
    exact ⟨by dsimp only; omega, rfl⟩
  | _ => exact ⟨uncommitted, rfl⟩

/-- A step gives a thread a ticket only at its tail CAS, and that ticket is new. -/
theorem act_ticket {q q' : BoundedQueue T} {l l' : Local T} {c : Choice T} {k : Nat}
    (step : act q l c = some (q', l')) (held : l'.ticket? = some k) : l.ticket? = some k ∨ k = q.tail := by
  cases act_cases step with
  | ticket => exact Or.inr (Option.some.inj held).symm
  | store | retryCommit => exact Or.inl held
  | _ => cases held

theorem act_other (q : BoundedQueue T) (l : Local T) (c : Choice T) (q' : BoundedQueue T) (l' m : Local T)
    (inv : Inv q) (here : At q l) (there : At q m) (apart : Apart l m) (_ : Apart m l)
    (step : act q l c = some (q', l')) : At q' m ∧ Apart l' m ∧ Apart m l' := by
  have separate : Apart l' m := by
    intro k mine held
    rcases act_ticket step mine with old | new
    · exact apart k old held
    · obtain ⟨element, ticket⟩ := there.ticket held
      have issued := ticket.issued
      omega
  exact ⟨there.grows (act_grows step) (fun k held => act_keeps_ticket inv here there apart step held),
    separate, fun k held mine => separate k mine held⟩

theorem outline : Config.Outline (act (T := T)) Inv At Apart where
  own := act_own
  other := act_other

theorem holds {τ : Type} [DecidableEq τ] [Inhabited T] {size : Nat}
    {s : Config τ (BoundedQueue T) (Local T)} (reach : (machine τ size).Reach s) :
    Config.Holds Inv At Apart s := by
  have base : Config.Holds Inv At Apart (machine (T := T) τ size).init :=
    ⟨inv_init size, fun _ => trivial, fun _ _ _ k held _ => by cases held⟩
  exact outline.reach base reach

/-- `pool_size_` is fixed by `Init`; it is below `size + 2` only where the sum wraps. -/
theorem poolSize_eq {τ : Type} [DecidableEq τ] [Inhabited T] {size : Nat}
    {s : Config τ (BoundedQueue T) (Local T)} (reach : (machine τ size).Reach s) :
    s.shared.poolSize = (size + 2) % 2 ^ 64 := by
  refine Machine.Reach.invariant (M := machine τ size)
    (P := fun s => s.shared.poolSize = (size + 2) % 2 ^ 64) rfl ?_ reach
  rintro s ⟨t, c⟩ s' same step
  obtain ⟨q', l', moved, rfl⟩ := Config.move_eq_some.mp step
  exact (act_grows moved).poolSize.trans same

/-- The queue is first-in first-out for any number of producers and consumers: in every state of
every interleaving the counters are ordered and bounded, tickets and takes are counted by `tail` and
`head`, the dequeued elements are the first ticketed ones in ticket order, and every committed
element that waits is in its slot unharmed. -/
theorem dequeued_prefix_enqueued {τ : Type} [DecidableEq τ] [Inhabited T] (size : Nat)
    {s : Config τ (BoundedQueue T) (Local T)} (reach : (machine τ size).Reach s) :
    s.shared.head < s.shared.commit ∧ s.shared.commit ≤ s.shared.tail ∧
      s.shared.tail - s.shared.head ≤ size + 1 ∧
      s.shared.enqueued.length + 1 = s.shared.tail ∧ s.shared.dequeued.length = s.shared.head ∧
      s.shared.dequeued <+: s.shared.enqueued ∧
      ∀ k, s.shared.head < k → k < s.shared.commit →
        s.shared.enqueued[k - 1]? = some (s.shared.pool (k % s.shared.poolSize)) := by
  have inv := (holds reach).shared
  have ordered := inv.head_lt_commit
  have issued := inv.commit_le_tail
  have bound := inv.tail_bound
  have tickets := inv.tickets
  have wraps : s.shared.poolSize ≤ size + 2 := poolSize_eq reach ▸ Nat.mod_le _ _
  refine ⟨ordered, issued, by omega, tickets, ?_, ?_, inv.waiting⟩
  · rw [inv.taken, List.length_take]
    omega
  · rw [inv.taken]
    exact List.take_prefix _ _

/-- Two elements through a queue of size two, one of them taken. -/
def oneOfTwoRun : List (Bool × Choice Nat) :=
  (false, .enqueue 8) :: List.replicate 6 (false, .run false) ++
    (false, .enqueue 9) :: List.replicate 6 (false, .run false) ++
    (true, .dequeue) :: List.replicate 5 (true, .run false)

theorem oneOfTwo_dequeued :
    let q := ((machine (T := Nat) Bool 2).stateAt oneOfTwoRun oneOfTwoRun.length).shared
    q.enqueued = [8, 9] ∧ q.dequeued = [8] ∧ q.dequeued <+: q.enqueued ∧ q.tail - q.head ≤ 3 := by
  have reach : (machine (T := Nat) Bool 2).Reach _ := Machine.stateAt_reach oneOfTwoRun rfl
  have fifo := dequeued_prefix_enqueued 2 reach
  exact ⟨rfl, rfl, fifo.2.2.2.2.2.1, fifo.2.2.1⟩

end CyberRT.BoundedQueue

import CyberRT.Base.UnboundedQueue

namespace CyberRT.UnboundedQueue
open Concur
universe u
variable {α : Type u}

namespace Pc

/-- The node, of another thread perhaps, whose `next` or `data` is read next. -/
def reads : Pc → Option Nat
  | .readNext n | .readData _ n _ => some n
  | _ => none

/-- The release that a thread has yet to begin. -/
def owes : Pc → Option (Role × Nat)
  | .writeNext _ n => some (.enqueue, n)
  | .readData n _ _ | .sizeSub n => some (.dequeue, n)
  | .fetchSub role n => some (role, n)
  | _ => none

/-- The node whose count a thread has decremented and of which it has yet to decide whether to delete it. -/
def ends : Pc → Option Nat
  | .loadCount _ n | .delete _ n => some n
  | _ => none

/-- The node that is not in the queue yet. -/
def fresh : Pc → Option Nat
  | .loadTail n | .casTail n _ => some n
  | _ => none

end Pc

/-- An exchange of `head_` that succeeds finds there the node whose `next` was read, not another one at the address of
a node that was deleted. -/
def SameNode (q : UnboundedQueue α) (pc : Pc) : Choice α → Prop
  | .next =>
    match pc with
    | .casHead oldHead _ => q.addr q.head = q.addr oldHead → q.head = oldHead
    | _ => True
  | _ => True

/-- When a thread decrements a count, no other one stands between its own decrement of it and its load; and when it
deletes a node, no other one is about to read it. -/
def Untouched (pc : Pc) : Choice α → Pc → Prop
  | .next, other =>
    match pc with
    | .fetchSub _ n => ∀ role, other ≠ .loadCount role n
    | .delete _ n => other.reads ≠ some n
    | _ => True
  | _, _ => True

/-- The node is no longer the tail, or the head. -/
def Turn (q : UnboundedQueue α) (role : Role) (n : Nat) : Prop :=
  ∃ i, q.position n = some i ∧ i < match role with
    | .enqueue => q.enqueued.length
    | .dequeue => q.dequeued.length

def Owes (q : UnboundedQueue α) (role : Role) (n : Nat) : Prop :=
  q.released n role = false ∧ q.Turn role n

def Ends (q : UnboundedQueue α) (role : Role) (n : Nat) : Prop :=
  q.released n role = true ∧ q.deleted n = 0

structure Inv (q : UnboundedQueue α) : Prop where
  inj : ∀ n n' i, q.position n = some i → q.position n' = some i → n = n'
  bound : ∀ n i, q.position n = some i → i ≤ q.enqueued.length ∧ n < q.allocated
  head : q.position q.head = some q.dequeued.length
  tail : q.position q.tail = some q.enqueued.length
  data : ∀ n i, q.position n = some (i + 1) → q.enqueued[i]? = some (q.data n)
  next : ∀ n x, q.next n = some x → ∃ i, q.position n = some i ∧ q.position x = some (i + 1)
  count : ∀ n, q.refCount n + (q.released n .enqueue).toNat + (q.released n .dequeue).toNat = 2
  turn : ∀ n role, q.released n role = true → q.Turn role n
  once : ∀ n, q.deleted n ≤ 1
  dead : ∀ n, q.deleted n ≠ 0 → ∀ role, q.released n role = true
  fifo : ∀ (j : Nat) e, q.dequeued[j]? = some (some e) → q.enqueued[j]? = some e
  safe : q.usedDeleted = false

def At (q : UnboundedQueue α) : Pc → Prop
  | .idle | .sizeAdd => True
  | .loadTail n | .casTail n _ => q.position n = none ∧ n < q.allocated
  | .writeNext node oldTail =>
    (∃ i, q.position oldTail = some i ∧ q.position node = some (i + 1)) ∧ q.Owes .enqueue oldTail
  | .readNext oldHead => q.deleted oldHead = 0
  | .casHead oldHead headNext => ∃ i, q.position oldHead = some i ∧ q.position headNext = some (i + 1)
  | .readData oldHead headNext slot =>
    q.position oldHead = some slot ∧ q.position headNext = some (slot + 1) ∧ q.deleted headNext = 0 ∧
      q.dequeued[slot]? = some none ∧ q.Owes .dequeue oldHead
  | .sizeSub oldHead => q.Owes .dequeue oldHead
  | .fetchSub role n => q.Owes role n
  | .loadCount role n => q.Ends role n
  | .delete role n => q.Ends role n ∧ ∀ role, q.released n role = true

/-- No two threads owe the same release, end one of the same node or have the same new node. -/
structure Apart (l m : Pc) : Prop where
  owes : ∀ r, l.owes = some r → m.owes ≠ some r
  ends : ∀ n, l.ends = some n → m.ends ≠ some n
  fresh : ∀ n, l.fresh = some n → m.fresh ≠ some n

theorem Apart.symm {l m : Pc} (apart : Apart l m) : Apart m l where
  owes r theirs mine := apart.owes r mine theirs
  ends n theirs mine := apart.ends n mine theirs
  fresh n theirs mine := apart.fresh n mine theirs

/-- A thread moves on and has nothing that it did not have. -/
theorem Apart.moves {l l' m : Pc} (apart : Apart l m) (owes : l'.owes = none ∨ l'.owes = l.owes)
    (ends : l'.ends = none ∨ l'.ends = l.ends) (fresh : l'.fresh = none ∨ l'.fresh = l.fresh) : Apart l' m where
  owes r mine := by
    rcases owes with none | same
    · cases none.symm.trans mine
    · exact apart.owes r (same.symm.trans mine)
  ends n mine := by
    rcases ends with none | same
    · cases none.symm.trans mine
    · exact apart.ends n (same.symm.trans mine)
  fresh n mine := by
    rcases fresh with none | same
    · cases none.symm.trans mine
    · exact apart.fresh n (same.symm.trans mine)

variable {q q' : UnboundedQueue α}

theorem use_eq {n : Nat} (alive : q.deleted n = 0) : q.use n = q := by
  simp only [use, alive, bne_self_eq_false, Bool.or_false]

/-- A node that a thread has yet to release is not deleted. -/
theorem Inv.alive_of_owes (inv : Inv q) {role : Role} {n : Nat} (owes : q.Owes role n) : q.deleted n = 0 := by
  by_contra deleted
  cases owes.1.symm.trans (inv.dead n deleted role)

/-- What is in the queue behind the head is not deleted. -/
theorem Inv.alive_of_position (inv : Inv q) {n i : Nat} (here : q.position n = some i)
    (behind : q.dequeued.length ≤ i) : q.deleted n = 0 := by
  by_contra deleted
  obtain ⟨j, there, lt⟩ := inv.turn n .dequeue (inv.dead n deleted .dequeue)
  obtain rfl := Option.some.inj (here.symm.trans there)
  exact absurd lt (not_lt.mpr behind)

/-- What a step leaves to a thread that does not take it. -/
structure Keeps (q q' : UnboundedQueue α) (m : Pc) : Prop where
  position : ∀ n i, q.position n = some i → q'.position n = some i
  fresh : ∀ n, m.fresh = some n → q'.position n = q.position n
  allocated : q.allocated ≤ q'.allocated
  enqueued : q.enqueued.length ≤ q'.enqueued.length
  dequeued : q.dequeued.length ≤ q'.dequeued.length
  slot : ∀ o n j, m = .readData o n j → q.dequeued[j]? = some none → q'.dequeued[j]? = some none
  reads : ∀ n, m.reads = some n → q'.deleted n = q.deleted n
  owes : ∀ role n, m.owes = some (role, n) → q'.released n role = q.released n role
  grows : ∀ role n, q.released n role = true → q'.released n role = true
  ends : ∀ n, m.ends = some n → q'.deleted n = q.deleted n

theorem Turn.mono {role : Role} {n : Nat} (turn : q.Turn role n)
    (position : ∀ n i, q.position n = some i → q'.position n = some i)
    (enqueued : q.enqueued.length ≤ q'.enqueued.length) (dequeued : q.dequeued.length ≤ q'.dequeued.length) :
    q'.Turn role n := by
  obtain ⟨i, here, lt⟩ := turn
  refine ⟨i, position n i here, ?_⟩
  cases role with
  | enqueue => exact lt.trans_le enqueued
  | dequeue => exact lt.trans_le dequeued

theorem Keeps.owed {m : Pc} (keeps : Keeps q q' m) {role : Role} {n : Nat} (mine : m.owes = some (role, n))
    (owes : q.Owes role n) : q'.Owes role n :=
  ⟨(keeps.owes role n mine).trans owes.1, owes.2.mono keeps.position keeps.enqueued keeps.dequeued⟩

theorem Keeps.ended {m : Pc} (keeps : Keeps q q' m) {role : Role} {n : Nat} (mine : m.ends = some n)
    (ends : q.Ends role n) : q'.Ends role n :=
  ⟨keeps.grows role n ends.1, (keeps.ends n mine).trans ends.2⟩

theorem At.keeps {m : Pc} (here : At q m) (keeps : Keeps q q' m) : At q' m := by
  cases m with
  | idle | sizeAdd => trivial
  | loadTail n => exact ⟨(keeps.fresh n rfl).trans here.1, here.2.trans_le keeps.allocated⟩
  | casTail n _ => exact ⟨(keeps.fresh n rfl).trans here.1, here.2.trans_le keeps.allocated⟩
  | writeNext node oldTail =>
    obtain ⟨⟨i, first, second⟩, owes⟩ := here
    exact ⟨⟨i, keeps.position _ _ first, keeps.position _ _ second⟩, keeps.owed rfl owes⟩
  | readNext oldHead => exact (keeps.reads oldHead rfl).trans here
  | casHead oldHead headNext =>
    obtain ⟨i, first, second⟩ := here
    exact ⟨i, keeps.position _ _ first, keeps.position _ _ second⟩
  | readData oldHead headNext slot =>
    obtain ⟨first, second, alive, empty, owes⟩ := here
    exact ⟨keeps.position _ _ first, keeps.position _ _ second, (keeps.reads headNext rfl).trans alive,
      keeps.slot _ _ _ rfl empty, keeps.owed rfl owes⟩
  | sizeSub oldHead => exact keeps.owed rfl here
  | fetchSub role n => exact keeps.owed rfl here
  | loadCount role n => exact keeps.ended rfl here
  | delete role n => exact ⟨keeps.ended rfl here.1, fun role => keeps.grows role n (here.2 role)⟩

/-- A step that changes neither what is in the queue nor who has released it. -/
theorem keeps_same (m : Pc) (position : q'.position = q.position) (allocated : q.allocated ≤ q'.allocated)
    (enqueued : q'.enqueued = q.enqueued) (dequeued : q'.dequeued = q.dequeued) (deleted : q'.deleted = q.deleted)
    (released : q'.released = q.released) : Keeps q q' m where
  position n i here := by rwa [position]
  fresh n _ := by rw [position]
  allocated := allocated
  enqueued := by rw [enqueued]
  dequeued := by rw [dequeued]
  slot _ _ _ _ empty := by rwa [dequeued]
  reads _ _ := by rw [deleted]
  owes _ _ _ := by rw [released]
  grows _ _ done := by rwa [released]
  ends _ _ := by rw [deleted]

theorem keeps_size (m : Pc) (size : Nat) : Keeps q { q with size := size } m :=
  keeps_same m rfl le_rfl rfl rfl rfl rfl

theorem Inv.new_position (inv : Inv q) : q.position q.allocated = none := by
  by_contra linked
  obtain ⟨i, here⟩ := Option.ne_none_iff_exists'.mp linked
  exact Nat.lt_irrefl _ (inv.bound _ i here).2

theorem Inv.newNode (inv : Inv q) (element : α) (addr : Nat) : Inv (q.newNode element addr) := by
  have linked : ∀ {n i}, q.position n = some i → n ≠ q.allocated := fun here => (inv.bound _ _ here).2.ne
  have unreleased : ∀ role, q.released q.allocated role = false := by
    intro role
    by_contra released
    obtain ⟨i, here, -⟩ := inv.turn _ role (eq_true_of_ne_false released)
    exact linked here rfl
  refine ⟨inv.inj, fun n i here => ?_, inv.head, inv.tail, fun n i here => ?_, fun n x points => ?_, fun n => ?_,
    inv.turn, inv.once, inv.dead, inv.fifo, inv.safe⟩
  · exact (inv.bound n i here).imp_right Nat.lt_succ_of_lt
  · simp only [UnboundedQueue.newNode, Function.update_of_ne (linked here)]
    exact inv.data n i here
  · by_cases same : n = q.allocated
    · subst same
      simp only [UnboundedQueue.newNode, Function.update_self] at points
      cases points
    · simp only [UnboundedQueue.newNode, Function.update_of_ne same] at points
      exact inv.next n x points
  · by_cases same : n = q.allocated
    · subst same
      simp only [UnboundedQueue.newNode, Function.update_self, unreleased]
      rfl
    · simp only [UnboundedQueue.newNode, Function.update_of_ne same]
      exact inv.count n

theorem Inv.head_le (inv : Inv q) : q.dequeued.length ≤ q.enqueued.length :=
  (inv.bound _ _ inv.head).1

theorem position_exchangeTail {node n i : Nat} (free : q.position node = none) (here : q.position n = some i) :
    (q.exchangeTail node).position n = some i := by
  have other : n ≠ node := by
    rintro rfl
    cases free.symm.trans here
  exact (Function.update_of_ne other ..).trans here

/-- The new node comes after all others. -/
theorem Inv.exchangeTail {node : Nat} (inv : Inv q) (free : q.position node = none) (old : node < q.allocated) :
    Inv (q.exchangeTail node) := by
  have length : (q.exchangeTail node).enqueued.length = q.enqueued.length + 1 := List.length_append
  have self : (q.exchangeTail node).position node = some (q.enqueued.length + 1) := Function.update_self ..
  have back : ∀ n i, (q.exchangeTail node).position n = some i →
      (n = node ∧ i = q.enqueued.length + 1) ∨ q.position n = some i := by
    intro n i here
    by_cases same : n = node
    · subst same
      exact .inl ⟨rfl, (Option.some.inj (self.symm.trans here)).symm⟩
    · exact .inr ((Function.update_of_ne same ..).symm.trans here)
  have entries : ∀ (i : Nat) e, q.enqueued[i]? = some e → (q.exchangeTail node).enqueued[i]? = some e := fun i e here =>
    List.getElem?_append_left (List.getElem?_eq_some_iff.mp here).1 ▸ here
  refine ⟨fun n n' i first second => ?_, fun n i here => ?_, position_exchangeTail free inv.head, ?_,
    fun n i here => ?_, fun n x points => ?_, inv.count, fun n role released => ?_, inv.once, inv.dead,
    fun j e read => entries j e (inv.fifo j e read), inv.safe⟩
  · rcases back n i first with ⟨rfl, rfl⟩ | before
    · rcases back n' _ second with ⟨rfl, -⟩ | before'
      · rfl
      · exact absurd (inv.bound _ _ before').1 (by omega)
    · rcases back n' i second with ⟨rfl, rfl⟩ | before'
      · exact absurd (inv.bound _ _ before).1 (by omega)
      · exact inv.inj n n' i before before'
  · rw [length]
    rcases back n i here with ⟨rfl, rfl⟩ | before
    · exact ⟨le_rfl, old⟩
    · exact (inv.bound n i before).imp_left Nat.le_succ_of_le
  · rw [length]
    exact self
  · rcases back n (i + 1) here with ⟨rfl, last⟩ | before
    · obtain rfl : i = q.enqueued.length := Nat.succ.inj last
      exact List.getElem?_concat_length
    · exact entries i _ (inv.data n i before)
  · obtain ⟨i, first, second⟩ := inv.next n x points
    exact ⟨i, position_exchangeTail free first, position_exchangeTail free second⟩
  · exact (inv.turn n role released).mono (fun _ _ => position_exchangeTail free) (by omega) le_rfl

/-- `next` is written of the node that was the tail when the new one was linked. -/
theorem Inv.writeNext {node oldTail : Nat} (inv : Inv q)
    (linked : ∃ i, q.position oldTail = some i ∧ q.position node = some (i + 1)) :
    Inv { q with next := Function.update q.next oldTail (some node) } := by
  refine ⟨inv.inj, inv.bound, inv.head, inv.tail, inv.data, fun n x points => ?_, inv.count, inv.turn, inv.once,
    inv.dead, inv.fifo, inv.safe⟩
  have points : Function.update q.next oldTail (some node) n = some x := points
  by_cases same : n = oldTail
  · subst same
    rw [Function.update_self] at points
    obtain rfl := Option.some.inj points
    exact linked
  · rw [Function.update_of_ne same] at points
    exact inv.next n x points

/-- The head moves to the next node. -/
theorem Inv.exchangeHead {headNext : Nat} (inv : Inv q)
    (behind : q.position headNext = some (q.dequeued.length + 1)) : Inv (q.exchangeHead headNext) := by
  have length : (q.exchangeHead headNext).dequeued.length = q.dequeued.length + 1 := List.length_append
  refine ⟨inv.inj, inv.bound, ?_, inv.tail, inv.data, inv.next, inv.count, fun n role released => ?_, inv.once,
    inv.dead, fun j e read => ?_, inv.safe⟩
  · rw [length]
    exact behind
  · exact (inv.turn n role released).mono (fun _ _ => id) le_rfl (by omega)
  · have short : j < q.dequeued.length := by
      by_contra long
      have last := (List.getElem?_eq_some_iff.mp read).1
      rw [length] at last
      obtain rfl : j = q.dequeued.length := by omega
      cases List.getElem?_concat_length.symm.trans read
    rw [show (q.exchangeHead headNext).dequeued = q.dequeued ++ [none] from rfl,
      List.getElem?_append_left short] at read
    exact inv.fifo j e read

theorem Inv.readData {slot n : Nat} (inv : Inv q) (here : q.position n = some (slot + 1)) :
    Inv { q with dequeued := q.dequeued.set slot (some (q.data n)) } := by
  have length : (q.dequeued.set slot (some (q.data n))).length = q.dequeued.length := List.length_set
  refine ⟨inv.inj, inv.bound, ?_, inv.tail, inv.data, inv.next, inv.count, fun n role released => ?_, inv.once,
    inv.dead, fun j e read => ?_, inv.safe⟩
  · show _ = some (q.dequeued.set slot (some (q.data n))).length
    rw [length]
    exact inv.head
  · exact (inv.turn n role released).mono (fun _ _ => id) le_rfl length.ge
  · by_cases same : slot = j
    · subst same
      have within := (List.getElem?_eq_some_iff.mp read).1
      rw [length] at within
      have value := (List.getElem?_set_self within).symm.trans read
      cases value
      exact inv.data n slot here
    · exact inv.fifo j e ((List.getElem?_set_ne same).symm.trans read)

theorem released_fetchSub (q : UnboundedQueue α) (role role' : Role) (n n' : Nat) :
    (q.fetchSub role n).released n' role' = if n' = n ∧ role' = role then true else q.released n' role' := by
  by_cases node : n' = n
  · subst node
    by_cases same : role' = role
    · subst same
      simp only [fetchSub, Function.update_self, and_self, if_true]
    · simp only [fetchSub, Function.update_self, Function.update_of_ne same, same, and_false, if_false]
  · simp only [fetchSub, Function.update_of_ne node, node, false_and, if_false]

theorem released_fetchSub_self (q : UnboundedQueue α) (role : Role) (n : Nat) :
    (q.fetchSub role n).released n role = true := by
  rw [released_fetchSub, if_pos ⟨rfl, rfl⟩]

theorem released_fetchSub_of_ne {role role' : Role} {n n' : Nat} (other : (role', n') ≠ (role, n)) :
    (q.fetchSub role n).released n' role' = q.released n' role' := by
  rw [released_fetchSub, if_neg]
  rintro ⟨rfl, rfl⟩
  exact other rfl

theorem released_fetchSub_mono {role role' : Role} {n n' : Nat} (released : q.released n' role' = true) :
    (q.fetchSub role n).released n' role' = true := by
  rw [released_fetchSub]
  split
  · rfl
  · exact released

/-- A release counts down once. -/
theorem Inv.fetchSub {role : Role} {n : Nat} (inv : Inv q) (owes : q.Owes role n) : Inv (q.fetchSub role n) := by
  have turn : ∀ n' role', (q.fetchSub role n).released n' role' = true → q.Turn role' n' := by
    intro n' role' released
    by_cases same : (role', n') = (role, n)
    · cases same
      exact owes.2
    · rw [released_fetchSub_of_ne same] at released
      exact inv.turn n' role' released
  refine ⟨inv.inj, inv.bound, inv.head, inv.tail, inv.data, inv.next, fun n' => ?_, turn, inv.once,
    fun n' deleted role' => released_fetchSub_mono (inv.dead n' deleted role'), inv.fifo, inv.safe⟩
  have before := inv.count n'
  by_cases same : n' = n
  · subst same
    have now : (q.fetchSub role n').refCount n' = (q.refCount n' + (2 ^ 32 - 1)) % 2 ^ 32 := Function.update_self ..
    have mine := owes.1
    have changed : ((q.fetchSub role n').released n' .enqueue).toNat +
        ((q.fetchSub role n').released n' .dequeue).toNat =
          (q.released n' .enqueue).toNat + (q.released n' .dequeue).toNat + 1 := by
      cases role with
      | enqueue =>
        rw [released_fetchSub_self, released_fetchSub_of_ne (by simp), mine]
        simp only [Bool.toNat_true, Bool.toNat_false]
        omega
      | dequeue =>
        rw [released_fetchSub_self, released_fetchSub_of_ne (by simp), mine]
        simp only [Bool.toNat_true, Bool.toNat_false]
    have positive : 1 ≤ q.refCount n' := by
      have first := Bool.toNat_le (q.released n' .enqueue)
      have second := Bool.toNat_le (q.released n' .dequeue)
      cases role with
      | enqueue =>
        rw [mine] at before
        simp only [Bool.toNat_false] at before
        omega
      | dequeue =>
        rw [mine] at before
        simp only [Bool.toNat_false] at before
        omega
    omega
  · have other : ∀ role', (q.fetchSub role n).released n' role' = q.released n' role' := fun role' =>
      released_fetchSub_of_ne fun equal => same (congrArg Prod.snd equal)
    rw [other, other]
    exact (congrArg (fun x => x + _ + _) (Function.update_of_ne same ..)).trans before

theorem Inv.delete {role : Role} {n : Nat} (inv : Inv q) (ends : q.Ends role n)
    (both : ∀ role, q.released n role = true) :
    Inv { q with deleted := Function.update q.deleted n (q.deleted n + 1) } := by
  refine ⟨inv.inj, inv.bound, inv.head, inv.tail, inv.data, inv.next, inv.count, inv.turn, fun n' => ?_,
    fun n' deleted => ?_, inv.fifo, inv.safe⟩
  · show Function.update q.deleted n (q.deleted n + 1) n' ≤ 1
    by_cases same : n' = n
    · subst same
      rw [Function.update_self, ends.2]
    · rw [Function.update_of_ne same]
      exact inv.once n'
  · by_cases same : n' = n
    · subst same
      exact both
    · have deleted : Function.update q.deleted n (q.deleted n + 1) n' ≠ 0 := deleted
      rw [Function.update_of_ne same] at deleted
      exact inv.dead n' deleted

/-- A thread that has counted down and finds zero is the second one to release the node. -/
theorem Inv.both (inv : Inv q) {n : Nat} (zero : q.refCount n = 0) (role : Role) : q.released n role = true := by
  have count := inv.count n
  have first := Bool.toNat_le (q.released n .enqueue)
  have second := Bool.toNat_le (q.released n .dequeue)
  cases role with
  | enqueue => exact Bool.toNat_eq_one.mp (by omega)
  | dequeue => exact Bool.toNat_eq_one.mp (by omega)

/-- A step that touches no node and no order. -/
theorem Inv.size (inv : Inv q) (size : Nat) : Inv { q with size := size } :=
  ⟨inv.inj, inv.bound, inv.head, inv.tail, inv.data, inv.next, inv.count, inv.turn, inv.once, inv.dead, inv.fifo,
    inv.safe⟩

theorem at_rest (q : UnboundedQueue α) (role : Role) : At q role.rest := by
  cases role <;> trivial

/-- The thread that takes a step keeps the invariant and reaches its own next assertion. -/
theorem next_own {pc pc' : Pc} (inv : Inv q) (here : At q pc) (same : SameNode q pc .next)
    (step : act q pc .next = some (q', pc')) : Inv q' ∧ At q' pc' := by
  cases pc with
  | idle => cases step
  | loadTail node =>
    cases step
    exact ⟨inv, here⟩
  | casTail node oldTail =>
    simp only [act] at step
    split at step
    · cases step
      have tail := inv.tail
      have unreleased : q.released q.tail .enqueue = false := by
        by_contra released
        obtain ⟨i, there, lt⟩ := inv.turn _ _ (eq_true_of_ne_false released)
        obtain rfl := Option.some.inj (tail.symm.trans there)
        exact Nat.lt_irrefl _ lt
      have length : (q.exchangeTail node).enqueued.length = q.enqueued.length + 1 := List.length_append
      refine ⟨inv.exchangeTail here.1 here.2, ⟨_, position_exchangeTail here.1 tail, Function.update_self ..⟩,
        unreleased, _, position_exchangeTail here.1 tail, ?_⟩
      show q.enqueued.length < (q.exchangeTail node).enqueued.length
      omega
    · cases step
      exact ⟨inv, here⟩
  | writeNext node oldTail =>
    cases step
    rw [use_eq (inv.alive_of_owes here.2)]
    exact ⟨inv.writeNext here.1, here.2⟩
  | sizeAdd =>
    cases step
    exact ⟨inv.size _, trivial⟩
  | readNext oldHead =>
    simp only [act, use_eq (show q.deleted oldHead = 0 from here)] at step
    split at step
    · cases step
      exact ⟨inv, trivial⟩
    · rename_i headNext points
      cases step
      exact ⟨inv, inv.next oldHead headNext points⟩
  | casHead oldHead headNext =>
    simp only [act] at step
    split at step
    · rename_i found
      cases step
      obtain rfl : q.head = oldHead := same found
      obtain ⟨i, first, second⟩ := here
      have head := inv.head
      obtain rfl := Option.some.inj (head.symm.trans first)
      have unreleased : q.released q.head .dequeue = false := by
        by_contra released
        obtain ⟨i, there, lt⟩ := inv.turn _ _ (eq_true_of_ne_false released)
        obtain rfl := Option.some.inj (head.symm.trans there)
        exact Nat.lt_irrefl _ lt
      have length : (q.exchangeHead headNext).dequeued.length = q.dequeued.length + 1 := List.length_append
      refine ⟨inv.exchangeHead second, head, second, inv.alive_of_position second (Nat.le_succ _),
        List.getElem?_concat_length, unreleased, _, head, ?_⟩
      show q.dequeued.length < (q.exchangeHead headNext).dequeued.length
      omega
    · cases step
      exact ⟨inv, inv.alive_of_position inv.head le_rfl⟩
  | readData oldHead headNext slot =>
    cases step
    obtain ⟨-, second, alive, -, owes⟩ := here
    rw [use_eq alive]
    refine ⟨inv.readData second, owes.1, owes.2.mono (fun _ _ => id) le_rfl ?_⟩
    exact List.length_set.ge
  | sizeSub oldHead =>
    cases step
    have owes : At q (.fetchSub .dequeue oldHead) := here
    exact ⟨inv.size _, owes.keeps (keeps_size _ _)⟩
  | fetchSub role n =>
    cases step
    have alive := inv.alive_of_owes here
    rw [use_eq alive]
    exact ⟨inv.fetchSub here, released_fetchSub_self q role n, alive⟩
  | loadCount role n =>
    cases step
    rw [use_eq here.2]
    refine ⟨inv, ?_⟩
    split
    · rename_i zero
      exact ⟨here, inv.both zero⟩
    · exact at_rest q role
  | delete role n =>
    cases step
    exact ⟨inv.delete here.1 here.2, at_rest _ role⟩

/-- What the step leaves to another thread. -/
theorem next_keeps {pc pc' m : Pc} (inv : Inv q) (here : At q pc) (there : At q m) (apart : Apart pc m)
    (untouched : Untouched pc (.next : Choice α) m) (step : act q pc .next = some (q', pc')) : Keeps q q' m := by
  cases pc with
  | idle => cases step
  | loadTail node =>
    cases step
    exact keeps_same m rfl le_rfl rfl rfl rfl rfl
  | casTail node oldTail =>
    simp only [act] at step
    split at step
    · cases step
      refine ⟨fun _ _ => position_exchangeTail here.1, fun n mine => ?_, le_rfl, ?_, le_rfl, fun _ _ _ _ => id,
        fun _ _ => rfl, fun _ _ _ => rfl, fun _ _ => id, fun _ _ => rfl⟩
      · have other : n ≠ node := by
          rintro rfl
          exact apart.fresh n rfl mine
        exact Function.update_of_ne other ..
      · show _ ≤ (q.enqueued ++ [q.data node]).length
        rw [List.length_append]
        exact Nat.le_add_right ..
    · cases step
      exact keeps_same m rfl le_rfl rfl rfl rfl rfl
  | writeNext | loadCount =>
    cases step
    exact keeps_same m rfl le_rfl rfl rfl rfl rfl
  | sizeAdd | sizeSub =>
    cases step
    exact keeps_size m _
  | readNext oldHead =>
    simp only [act] at step
    split at step
    · cases step
      exact keeps_same m rfl le_rfl rfl rfl rfl rfl
    · cases step
      exact keeps_same m rfl le_rfl rfl rfl rfl rfl
  | casHead oldHead headNext =>
    simp only [act] at step
    split at step
    · cases step
      have longer : q.dequeued.length ≤ (q.dequeued ++ [none]).length := by
        rw [List.length_append]
        exact Nat.le_add_right ..
      refine ⟨fun _ _ => id, fun _ _ => rfl, le_rfl, le_rfl, longer, fun _ _ j _ empty => ?_, fun _ _ => rfl,
        fun _ _ _ => rfl, fun _ _ => id, fun _ _ => rfl⟩
      exact (List.getElem?_append_left (List.getElem?_eq_some_iff.mp empty).1).trans empty
    · cases step
      exact keeps_same m rfl le_rfl rfl rfl rfl rfl
  | readData oldHead headNext slot =>
    cases step
    have length : (q.dequeued.set slot (some (q.data headNext))).length = q.dequeued.length := List.length_set
    refine ⟨fun _ _ => id, fun _ _ => rfl, le_rfl, le_rfl, length.ge, fun o n j reads empty => ?_, fun _ _ => rfl,
      fun _ _ _ => rfl, fun _ _ => id, fun _ _ => rfl⟩
    subst reads
    -- the two threads have replaced different heads
    have other : slot ≠ j := by
      rintro rfl
      have same : oldHead = o := inv.inj _ _ slot here.1 there.1
      exact apart.owes _ rfl (congrArg (fun x => some (Role.dequeue, x)) same.symm)
    exact (List.getElem?_set_ne other).trans empty
  | fetchSub role n =>
    cases step
    refine ⟨fun _ _ => id, fun _ _ => rfl, le_rfl, le_rfl, le_rfl, fun _ _ _ _ => id, fun _ _ => rfl,
      fun role' n' mine => ?_, fun _ _ => released_fetchSub_mono, fun _ _ => rfl⟩
    refine released_fetchSub_of_ne (q := q.use n) fun same => ?_
    exact apart.owes (role, n) rfl (same ▸ mine)
  | delete role n =>
    cases step
    have others : ∀ n', n' ≠ n → Function.update q.deleted n (q.deleted n + 1) n' = q.deleted n' := fun n' other =>
      Function.update_of_ne other ..
    refine ⟨fun _ _ => id, fun _ _ => rfl, le_rfl, le_rfl, le_rfl, fun _ _ _ _ => id, fun n' mine => ?_,
      fun _ _ _ => rfl, fun _ _ => id, fun n' mine => ?_⟩
    · exact others n' fun same => untouched (same ▸ mine)
    · exact others n' fun same => apart.ends n rfl (same ▸ mine)

theorem At.owed {m : Pc} {role : Role} {n : Nat} (there : At q m) (owes : m.owes = some (role, n)) : q.Owes role n := by
  cases m with
  | writeNext node oldTail =>
    cases owes
    exact there.2
  | readData oldHead headNext slot =>
    cases owes
    exact there.2.2.2.2
  | sizeSub oldHead =>
    cases owes
    exact there
  | fetchSub role' n' =>
    cases owes
    exact there
  | idle | loadTail | casTail | sizeAdd | readNext | casHead | loadCount | delete => cases owes

/-- A thread that owes a release of a node finds nobody who is about to delete it. -/
theorem At.loads {m : Pc} {role : Role} {n : Nat} (there : At q m) (ends : m.ends = some n) (owes : q.Owes role n) :
    ∃ role', m = .loadCount role' n := by
  cases m with
  | loadCount role' n' =>
    cases ends
    exact ⟨role', rfl⟩
  | delete role' n' =>
    cases ends
    cases owes.1.symm.trans (there.2 role)
  | idle | loadTail | casTail | writeNext | sizeAdd | readNext | casHead | readData | sizeSub | fetchSub => cases ends

theorem apart_rest {role : Role} {pc m : Pc} (apart : Apart pc m) : Apart role.rest m := by
  cases role <;> exact apart.moves (.inl rfl) (.inl rfl) (.inl rfl)

theorem next_apart {pc pc' m : Pc} (inv : Inv q) (here : At q pc) (there : At q m) (apart : Apart pc m)
    (untouched : Untouched pc (.next : Choice α) m) (step : act q pc .next = some (q', pc')) : Apart pc' m := by
  cases pc with
  | idle => cases step
  | loadTail node =>
    cases step
    exact apart.moves (.inl rfl) (.inl rfl) (.inr rfl)
  | casTail node oldTail =>
    simp only [act] at step
    split at step
    · cases step
      refine ⟨fun r mine theirs => ?_, fun n mine => (by cases mine), fun n mine => (by cases mine)⟩
      cases mine
      -- nobody owes a release of the tail
      obtain ⟨-, i, position, lt⟩ := there.owed theirs
      obtain rfl := Option.some.inj (inv.tail.symm.trans position)
      exact Nat.lt_irrefl _ lt
    · cases step
      exact apart.moves (.inl rfl) (.inl rfl) (.inr rfl)
  | writeNext | sizeSub =>
    cases step
    exact apart.moves (.inr rfl) (.inl rfl) (.inl rfl)
  | sizeAdd =>
    cases step
    exact apart.moves (.inl rfl) (.inl rfl) (.inl rfl)
  | readNext oldHead =>
    simp only [act] at step
    split at step <;> cases step <;> exact apart.moves (.inl rfl) (.inl rfl) (.inl rfl)
  | casHead oldHead headNext =>
    simp only [act] at step
    split at step
    · cases step
      refine ⟨fun r mine theirs => ?_, fun n mine => (by cases mine), fun n mine => (by cases mine)⟩
      cases mine
      obtain ⟨-, i, position, lt⟩ := there.owed theirs
      obtain rfl := Option.some.inj (inv.head.symm.trans position)
      exact Nat.lt_irrefl _ lt
    · cases step
      exact apart.moves (.inl rfl) (.inl rfl) (.inl rfl)
  | readData oldHead headNext slot =>
    cases step
    exact apart.moves (.inr rfl) (.inl rfl) (.inl rfl)
  | fetchSub role n =>
    cases step
    refine ⟨fun r mine => (by cases mine), fun n' mine theirs => ?_, fun n mine => (by cases mine)⟩
    cases mine
    obtain ⟨role', loads⟩ := there.loads theirs here
    exact untouched role' loads
  | loadCount role n =>
    cases step
    split
    · exact apart.moves (.inl rfl) (.inr rfl) (.inl rfl)
    · exact apart_rest apart
  | delete role n =>
    cases step
    exact apart_rest apart

theorem enqueue_other {m : Pc} (there : At q m) (element : α) (addr : Nat) :
    At (q.newNode element addr) m ∧ Apart (.loadTail q.allocated) m := by
  refine ⟨there.keeps (keeps_same m rfl (Nat.le_succ _) rfl rfl rfl rfl), fun r mine => (by cases mine),
    fun n mine => (by cases mine), fun n mine theirs => ?_⟩
  cases mine
  cases m with
  | loadTail n | casTail n =>
    cases theirs
    exact Nat.lt_irrefl _ there.2
  | idle | writeNext | sizeAdd | readNext | casHead | readData | sizeSub | fetchSub | loadCount | delete => cases theirs

theorem outline : Config.OutlineWhen (@act α) SameNode Untouched Inv At Apart where
  own q pc c q' pc' inv here same step := by
    cases c with
    | next => exact next_own inv here same step
    | enqueue element addr =>
      cases pc with
      | idle =>
        obtain ⟨-, ⟨⟩⟩ := Option.ite_none_right_eq_some.mp step
        exact ⟨inv.newNode element addr, inv.new_position, Nat.lt_succ_self _⟩
      | _ => cases step
    | dequeue =>
      cases pc with
      | idle =>
        cases step
        exact ⟨inv, inv.alive_of_position inv.head le_rfl⟩
      | _ => cases step
  other q pc c q' pc' m inv here there apart _ same untouched step := by
    cases c with
    | next =>
      have next := next_apart inv here there apart untouched step
      exact ⟨there.keeps (next_keeps inv here there apart untouched step), next, next.symm⟩
    | enqueue element addr =>
      cases pc with
      | idle =>
        obtain ⟨-, ⟨⟩⟩ := Option.ite_none_right_eq_some.mp step
        obtain ⟨kept, next⟩ := enqueue_other there element addr
        exact ⟨kept, next, next.symm⟩
      | _ => cases step
    | dequeue =>
      cases pc with
      | idle =>
        cases step
        have next : Apart (.readNext q.head) m := apart.moves (.inl rfl) (.inl rfl) (.inl rfl)
        exact ⟨there, next, next.symm⟩
      | _ => cases step

/-- A place that has yet to be read is that of the thread that moves, or was there before and is not its own. -/
theorem act_slot {pc pc' : Pc} {c : Choice α} (step : act q pc c = some (q', pc')) {j : Nat}
    (empty : q'.dequeued[j]? = some none) :
    (∃ o n, pc' = .readData o n j) ∨ (q.dequeued[j]? = some none ∧ ∀ o n, pc ≠ .readData o n j) := by
  cases c with
  | enqueue element addr =>
    cases pc with
    | idle =>
      obtain ⟨-, ⟨⟩⟩ := Option.ite_none_right_eq_some.mp step
      exact .inr ⟨empty, fun _ _ reads => by cases reads⟩
    | _ => cases step
  | dequeue =>
    cases pc with
    | idle =>
      cases step
      exact .inr ⟨empty, fun _ _ reads => by cases reads⟩
    | _ => cases step
  | next =>
    cases pc with
    | idle => cases step
    | casHead oldHead headNext =>
      simp only [act] at step
      split at step
      · cases step
        by_cases short : j < q.dequeued.length
        · exact .inr ⟨(List.getElem?_append_left short).symm.trans empty, fun _ _ reads => by cases reads⟩
        · have last := (List.getElem?_eq_some_iff.mp empty).1
          simp only [exchangeHead, List.length_append, List.length_singleton] at last
          obtain rfl : j = q.dequeued.length := by omega
          exact .inl ⟨_, _, rfl⟩
      · cases step
        exact .inr ⟨empty, fun _ _ reads => by cases reads⟩
    | readData oldHead headNext slot =>
      cases step
      have empty : (q.dequeued.set slot (some (q.data headNext)))[j]? = some none := empty
      have other : slot ≠ j := by
        rintro rfl
        have within := (List.getElem?_eq_some_iff.mp empty).1
        rw [List.length_set] at within
        cases (List.getElem?_set_self within).symm.trans empty
      refine .inr ⟨(List.getElem?_set_ne other).symm.trans empty, fun o n reads => ?_⟩
      cases reads
      exact other rfl
    | casTail | readNext =>
      simp only [act] at step
      split at step <;> cases step <;> exact .inr ⟨empty, fun _ _ reads => by cases reads⟩
    | loadTail | writeNext | sizeAdd | sizeSub | fetchSub | loadCount | delete =>
      cases step
      exact .inr ⟨empty, fun _ _ reads => by cases reads⟩

section Threads
variable {τ : Type*} [DecidableEq τ] [Inhabited α] {s : Config τ (UnboundedQueue α) Pc}

/-- Every place that has yet to be read is that of a `Dequeue` in progress. -/
theorem reach_slot (reach : (machine τ α).Reach s) (j : Nat) (empty : s.shared.dequeued[j]? = some none) :
    ∃ t o n, s.thread t = .readData o n j := by
  refine Machine.Reach.invariant (M := machine τ α)
    (P := fun s => ∀ j : Nat, s.shared.dequeued[j]? = some none → ∃ t o n, s.thread t = .readData o n j)
    (fun j empty => by cases empty) (fun s e s' slots step j empty => ?_) reach j empty
  obtain ⟨t, c⟩ := e
  obtain ⟨q, pc, moved, rfl⟩ := Config.move_eq_some.mp step
  rcases act_slot moved empty with ⟨o, n, reads⟩ | ⟨before, elsewhere⟩
  · exact ⟨t, o, n, (Function.update_self ..).trans reads⟩
  · obtain ⟨u, o, n, reads⟩ := slots j before
    have other : u ≠ t := by
      rintro rfl
      exact elsewhere o n reads
    exact ⟨u, o, n, (Function.update_of_ne other ..).trans reads⟩

omit [DecidableEq τ] in
theorem holds_init : Config.Holds Inv At Apart (⟨.init, fun _ => .idle⟩ : Config τ (UnboundedQueue α) Pc) where
  shared := by
    have position : ∀ n i, (init : UnboundedQueue α).position n = some i → n = 0 ∧ i = 0 := by
      intro n i here
      by_cases first : n = 0
      · subst first
        exact ⟨rfl, (Option.some.inj here).symm⟩
      · simp only [init, Function.update_of_ne first] at here
        cases here
    refine ⟨fun n n' i first second => ?_, fun n i here => ?_, rfl, rfl, fun n i here => ?_, fun n x points => ?_,
      fun n => rfl, fun n role released => ?_, fun n => Nat.zero_le _, fun n deleted => absurd rfl deleted,
      fun j e read => ?_, rfl⟩
    · exact (position n i first).1.trans (position n' i second).1.symm
    · obtain ⟨rfl, rfl⟩ := position n i here
      exact ⟨le_rfl, Nat.zero_lt_one⟩
    · cases (position n (i + 1) here).2
    · cases points
    · cases released
    · cases read
  thread _ := trivial
  apart _ _ _ := ⟨fun _ mine => (by cases mine), fun _ mine => (by cases mine), fun _ mine => (by cases mine)⟩

/-- In every run whose steps find the same node and leave untouched what others are at: the elements are dequeued in
the order in which they were enqueued (of the exchanges of `head_` and `tail_`), where one that has yet to be read has
its `Dequeue` in progress; no node was deleted twice; and none was used after it was deleted. -/
theorem queue_fifo (reach : (machine τ α).ReachWhen (Config.Clear SameNode Untouched) s) :
    (∀ (j : Nat) x, s.shared.dequeued[j]? = some x → ∃ e, s.shared.enqueued[j]? = some e ∧
      (x = some e ∨ x = none ∧ ∃ t o n, s.thread t = .readData o n j)) ∧
      (∀ n, s.shared.deleted n ≤ 1) ∧ s.shared.usedDeleted = false := by
  have inv : Inv s.shared := (outline.reach holds_init reach).shared
  refine ⟨fun j x read => ?_, inv.once, inv.safe⟩
  have within : j < s.shared.enqueued.length := (List.getElem?_eq_some_iff.mp read).1.trans_le inv.head_le
  refine ⟨_, List.getElem?_eq_getElem within, ?_⟩
  cases x with
  | none => exact .inr ⟨rfl, reach_slot reach.reach j read⟩
  | some e => exact .inl ((inv.fifo j e read).symm.trans (List.getElem?_eq_getElem within))

end Threads

/-- A thread takes the next `n` steps of its operation. -/
def steps {τ : Type*} (t : τ) (n : Nat) : List (τ × Choice Nat) :=
  List.replicate n (t, .next)

/-- An element is enqueued and dequeued, one call after the other. -/
def passes : List (Bool × Choice Nat) :=
  (true, .enqueue 7 1) :: steps true 6 ++ (false, .dequeue) :: steps false 7

theorem untouched_idle (pc : Pc) (c : Choice α) : Untouched pc c .idle := by
  cases c with
  | next =>
    cases pc with
    | fetchSub role n => exact fun _ loads => by cases loads
    | delete role n => exact fun reads => by cases reads
    | _ => trivial
  | enqueue | dequeue => trivial

/-- A step of one of two threads while the other one is in no call. -/
theorem clear_alone {s : Config Bool (UnboundedQueue α) Pc} {t : Bool} {c : Choice α}
    (same : SameNode s.shared (s.thread t) c) (idle : s.thread (!t) = .idle) :
    Config.Clear SameNode Untouched s (t, c) := by
  refine ⟨same, fun u other => ?_⟩
  obtain rfl : u = !t := Bool.eq_not.mpr other
  show Untouched (s.thread t) c (s.thread (!t))
  rw [idle]
  exact untouched_idle ..

theorem passes_fifo :
    let s := (machine Bool Nat).stateAt passes 15
    s.shared.enqueued = [7] ∧ s.shared.dequeued = [some 7] ∧ s.shared.deleted 0 = 1 ∧ s.shared.usedDeleted = false := by
  have meets : (machine Bool Nat).Meets (Config.Clear SameNode Untouched) (machine Bool Nat).init passes := by
    exact ⟨clear_alone trivial rfl, clear_alone trivial rfl, clear_alone trivial rfl, clear_alone trivial rfl,
      clear_alone trivial rfl, clear_alone trivial rfl, clear_alone trivial rfl, clear_alone trivial rfl,
      clear_alone trivial rfl, clear_alone (fun _ => rfl) rfl, clear_alone trivial rfl, clear_alone trivial rfl,
      clear_alone trivial rfl, clear_alone trivial rfl, clear_alone trivial rfl, trivial⟩
  have reach := Machine.stateAt_reachWhen passes meets rfl
  exact ⟨rfl, rfl, rfl, (queue_fifo reach).2.2⟩

/-- Both threads that release the first node count down before the first of them loads the count. -/
def countsDownTwice : List (Bool × Choice Nat) :=
  (true, .enqueue 7 1) :: steps true 3 ++ (false, .dequeue) :: steps false 5 ++
    [(true, .next), (false, .next), (true, .next), (false, .next), (true, .next)]

theorem countsDownTwice_deletes :
    ∃ s : Config Bool (UnboundedQueue Nat) Pc, (machine Bool Nat).Reach s ∧ s.shared.deleted 0 = 2 :=
  ⟨_, Machine.stateAt_reach countsDownTwice rfl, rfl⟩

end CyberRT.UnboundedQueue

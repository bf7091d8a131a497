import CyberRT.Data.ChannelBuffer
import CyberRT.Lib.Machine
import Mathlib.Data.List.Induction

namespace CyberRT
universe u
variable {T : Type u}

namespace CacheBuffer

/-- The buffer has been filled with these messages, oldest first: the message at a position is there as long as
no later position has its slot. -/
structure Holds (b : CacheBuffer T) (queueSize : Nat) (filled : List T) : Prop where
  capacity : b.capacity = queueSize + 1
  head : b.head = filled.length - queueSize
  tail : b.tail = filled.length
  slots : ∀ p, 0 < p → p ≤ filled.length → filled.length < p + b.capacity → b.get p = filled[p - 1]?

theorem holds_new (queueSize : Nat) : (new queueSize : CacheBuffer T).Holds queueSize [] where
  capacity := rfl
  head := (Nat.zero_sub queueSize).symm
  tail := rfl
  slots p positive bound := by
    rw [List.length_nil] at bound
    omega

/-- Both branches of `Fill` write the slot of the next position. -/
theorem Holds.fill_eq {b : CacheBuffer T} {queueSize : Nat} {filled : List T} (holds : b.Holds queueSize filled)
    (value : T) :
    b.fill value =
      { b with head := filled.length + 1 - queueSize
               tail := filled.length + 1
               buffer := Function.update b.buffer (b.getIndex (filled.length + 1)) (some value) } := by
  have capacity := holds.capacity
  have head := holds.head
  have tail := holds.tail
  unfold fill
  split
  · rename_i full
    unfold Full at full
    have enough : queueSize ≤ filled.length := by omega
    have slot : b.getIndex b.head = b.getIndex (filled.length + 1) := by
      unfold getIndex
      have next : filled.length + 1 = b.head + b.capacity := by omega
      rw [next, Nat.add_mod_right]
    rw [slot, tail, head]
    congr 1
    omega
  · rename_i room
    unfold Full at room
    rw [tail]
    congr 1
    omega

theorem Holds.fill {b : CacheBuffer T} {queueSize : Nat} {filled : List T} (holds : b.Holds queueSize filled)
    (value : T) : (b.fill value).Holds queueSize (filled ++ [value]) := by
  rw [holds.fill_eq]
  refine ⟨holds.capacity, by simp, by simp, fun p positive bound recent => ?_⟩
  simp only [List.length_append, List.length_singleton] at bound recent
  rcases Nat.lt_or_ge filled.length p with last | before
  · have newest : p = filled.length + 1 := by omega
    subst newest
    simp [get, getIndex]
  · have other : p % b.capacity ≠ (filled.length + 1) % b.capacity := by
      intro same
      have distance := Nat.dvd_of_mod_eq_zero (Nat.sub_mod_eq_zero_of_mod_eq same.symm)
      have whole := Nat.le_of_dvd (by omega) distance
      omega
    have kept := holds.slots p positive before (by omega)
    rw [List.getElem?_append_left (by omega), ← kept]
    simp [get, getIndex, other]

/-- A buffer after these fills. -/
def filledWith (queueSize : Nat) (msgs : List T) : CacheBuffer T :=
  msgs.foldl fill (new queueSize)

theorem Holds.fillAll {b : CacheBuffer T} {queueSize : Nat} {filled : List T} (holds : b.Holds queueSize filled)
    (msgs : List T) : (msgs.foldl CacheBuffer.fill b).Holds queueSize (filled ++ msgs) := by
  induction msgs generalizing b filled with
  | nil => simpa using holds
  | cons msg msgs ih => simpa using ih (holds.fill msg)

theorem holds_filledWith (queueSize : Nat) (msgs : List T) : (filledWith queueSize msgs).Holds queueSize msgs :=
  (holds_new queueSize).fillAll msgs

/-- The newest messages, as many as there is room for, stand at the last positions. -/
theorem Holds.window {b : CacheBuffer T} {queueSize : Nat} {filled : List T} (holds : b.Holds queueSize filled)
    {num : Nat} (few : num ≤ min filled.length queueSize) :
    (List.range num).map (fun i => b.get (filled.length - num + 1 + i)) =
      (filled.drop (filled.length - num)).map some := by
  have capacity := holds.capacity
  refine List.ext_getElem ?_ fun i inRange _ => ?_
  · simp only [List.length_map, List.length_range, List.length_drop]
    omega
  · simp only [List.length_map, List.length_range] at inRange
    have here := holds.slots (filled.length - num + 1 + i) (by omega) (by omega) (by omega)
    have index : filled.length - num + 1 + i - 1 = filled.length - num + i := by omega
    rw [index, List.getElem?_eq_getElem (by omega)] at here
    simp only [List.getElem_map, List.getElem_range, List.getElem_drop, here]

theorem Holds.size_eq {b : CacheBuffer T} {queueSize : Nat} {filled : List T} (holds : b.Holds queueSize filled) :
    b.size = min filled.length queueSize := by
  have head := holds.head
  have tail := holds.tail
  unfold CacheBuffer.size
  omega

theorem Holds.empty_iff {b : CacheBuffer T} {queueSize : Nat} {filled : List T} (holds : b.Holds queueSize filled) :
    b.Empty ↔ filled = [] := by
  unfold Empty
  rw [holds.tail, List.length_eq_zero_iff]

theorem Holds.latest_eq {b : CacheBuffer T} {queueSize : Nat} {filled : List T} (holds : b.Holds queueSize filled) :
    b.latest = filled.getLast?.map some := by
  unfold CacheBuffer.latest
  split
  · rename_i empty
    rw [holds.empty_iff.mp empty]
    rfl
  · rename_i some
    have nonempty := mt holds.empty_iff.mpr some
    have positive := List.length_pos_iff.mpr nonempty
    have capacity := holds.capacity
    rw [back, holds.tail, holds.slots filled.length positive le_rfl (by omega), ← List.getLast?_eq_getElem?,
      List.getLast?_eq_some_getLast nonempty]
    rfl

/-- The positions after `head` up to `tail` have exactly the newest messages. -/
theorem Holds.recent {b : CacheBuffer T} {queueSize : Nat} {filled : List T} (holds : b.Holds queueSize filled) :
    (List.range b.size).map (fun i => b.get (b.getHead + i)) =
      (filled.drop (filled.length - min filled.length queueSize)).map some := by
  have head := holds.head
  have first : b.getHead = filled.length - min filled.length queueSize + 1 := by
    unfold getHead
    omega
  rw [holds.size_eq, first]
  exact holds.window le_rfl

/-- `FetchMulti` appends the newest of them, oldest first. -/
theorem Holds.fetchMulti {b : CacheBuffer T} {queueSize : Nat} {filled : List T} (holds : b.Holds queueSize filled)
    (fetchSize : Nat) (vec : List (Option T)) :
    b.fetchMulti fetchSize vec =
      (!filled.isEmpty, vec ++
        (filled.drop (filled.length - min fetchSize (min filled.length queueSize))).map some) := by
  unfold CacheBuffer.fetchMulti
  split
  · rename_i empty
    have none := holds.empty_iff.mp empty
    subst none
    simp
  · rename_i some
    have nonempty : filled.isEmpty = false := by
      rw [List.isEmpty_eq_false_iff]
      exact fun none => some (holds.empty_iff.mpr none)
    rw [holds.size_eq, Nat.min_comm, nonempty, getTail, holds.tail]
    exact congrArg (fun newest => (true, vec ++ newest)) (holds.window (Nat.min_le_right _ _))

/-- The position that is read when the reader expects `index`: the newest if it expects nothing yet, or if the
expected one is not among the newest any more. -/
def nextPosition (queueSize filled index : Nat) : Nat :=
  if index ≠ 0 ∧ filled < index + queueSize then index else filled

theorem Holds.fetch {b : CacheBuffer T} {queueSize : Nat} {filled : List T} (holds : b.Holds queueSize filled)
    {index : Nat} (bound : index ≤ filled.length + 1) :
    b.fetch index =
      if filled = [] ∨ index = filled.length + 1 then none
      else some (nextPosition queueSize filled.length index,
        filled[nextPosition queueSize filled.length index - 1]?) := by
  have capacity := holds.capacity
  have head := holds.head
  have tail := holds.tail
  have newest : filled ≠ [] → b.get filled.length = filled[filled.length - 1]? := by
    intro some
    have positive := List.length_pos_iff.mpr some
    exact holds.slots _ positive le_rfl (by omega)
  unfold CacheBuffer.fetch nextPosition
  simp only [holds.empty_iff, getTail, getHead, tail]
  by_cases empty : filled = []
  · rw [if_pos empty, if_pos (.inl empty)]
  · rw [if_neg empty]
    by_cases first : index = 0
    · have some : ¬ (filled = [] ∨ index = filled.length + 1) := by
        rintro (none | next)
        · exact empty none
        · omega
      have unread : ¬ (index ≠ 0 ∧ filled.length < index + queueSize) := fun expected => expected.1 first
      rw [if_pos first, if_neg some, if_neg unread, newest empty]
    · rw [if_neg first]
      by_cases upToDate : index = filled.length + 1
      · rw [if_pos upToDate, if_pos (.inr upToDate)]
      · have some : ¬ (filled = [] ∨ index = filled.length + 1) := fun last => last.elim empty upToDate
        rw [if_neg upToDate, if_neg some]
        by_cases overtaken : index < b.head + 1
        · have gone : ¬ (index ≠ 0 ∧ filled.length < index + queueSize) := by omega
          rw [if_pos overtaken, if_neg gone, newest empty]
        · have kept : index ≠ 0 ∧ filled.length < index + queueSize := by omega
          rw [if_neg overtaken, if_pos kept, holds.slots index (by omega) (by omega) (by omega)]

end CacheBuffer

namespace ChannelDelivery
open Concur

/-- A visitor, all messages its buffer was filled with, and what its fetches have returned with the positions
they have read. -/
structure State (T : Type u) where
  visitor : DataVisitor T
  filled : List T
  fetched : List (Nat × Option T)

inductive Event (T : Type u)
  | fill (msg : T)
  | tryFetch

def State.new (queueSize : Nat) : State T :=
  ⟨.new queueSize, [], []⟩

def State.fill (s : State T) (msg : T) : State T :=
  { s with visitor := { s.visitor with buffer := s.visitor.buffer.fill msg }, filled := s.filled ++ [msg] }

def State.tryFetch (s : State T) : State T :=
  match s.visitor.tryFetch with
  | some (msg, visitor) =>
    { s with visitor := visitor, fetched := s.fetched ++ [(visitor.nextMsgIndex - 1, msg)] }
  | none => s

/-- Each fill and each fetch is under the mutex of the buffer. -/
def machine (T : Type u) (queueSize : Nat) : Machine (State T) (Event T) where
  init := .new queueSize
  step s
    | .fill msg => some (s.fill msg)
    | .tryFetch => some s.tryFetch

/-- The position of the last message fetched, zero before the first fetch. -/
def State.last (s : State T) : Nat :=
  (s.fetched.getLast?.map Prod.fst).getD 0

/-- The position that the next fetch is to read. -/
def State.expected (s : State T) : Nat :=
  if s.fetched = [] then 0 else s.last + 1

/-- What a reader of a channel gets. -/
structure Delivers (queueSize : Nat) (s : State T) : Prop where
  /-- The messages fetched are among the messages filled, in their order, none of them twice. -/
  ordered : (s.fetched.map Prod.fst).Pairwise (· < ·)
  filled : ∀ r ∈ s.fetched, 0 < r.1 ∧ r.1 ≤ s.filled.length ∧ r.2 = s.filled[r.1 - 1]?
  /-- A fetch fails if and only if the last message fetched is the last one filled. -/
  fails : s.visitor.tryFetch = none ↔ s.last = s.filled.length
  /-- A fetch takes the next message, or the newest if it is the first fetch or the next message is not among
  the newest `queueSize` any more. -/
  takes : ∀ msg visitor, s.visitor.tryFetch = some (msg, visitor) →
    ∃ p, s.last < p ∧ p ≤ s.filled.length ∧ msg = s.filled[p - 1]? ∧ s.tryFetch.last = p ∧
      p = if s.fetched ≠ [] ∧ s.filled.length - queueSize ≤ s.last then s.last + 1 else s.filled.length
  ring : s.visitor.buffer.tail = s.filled.length ∧
    s.visitor.buffer.head = s.filled.length - min s.filled.length queueSize ∧
    (List.range s.visitor.buffer.size).map (fun i => s.visitor.buffer.get (s.visitor.buffer.getHead + i)) =
      (s.filled.drop (s.filled.length - min s.filled.length queueSize)).map some
  multi : ∀ k, s.visitor.buffer.fetchMulti k [] =
    (!s.filled.isEmpty, (s.filled.drop (s.filled.length - min k (min s.filled.length queueSize))).map some)

structure Inv (queueSize : Nat) (s : State T) : Prop where
  holds : s.visitor.buffer.Holds queueSize s.filled
  ordered : (s.fetched.map Prod.fst).Pairwise (· < ·)
  read : ∀ r ∈ s.fetched, 0 < r.1 ∧ r.1 ≤ s.last ∧ r.2 = s.filled[r.1 - 1]?
  last : s.last ≤ s.filled.length
  next : s.visitor.nextMsgIndex = s.expected

/-- The position that the next fetch reads. -/
def State.position (queueSize : Nat) (s : State T) : Nat :=
  if s.fetched ≠ [] ∧ s.filled.length - queueSize ≤ s.last then s.last + 1 else s.filled.length

theorem last_eq_zero {s : State T} (none : s.fetched = []) : s.last = 0 := by
  rw [State.last, none]
  rfl

theorem Inv.position_eq {queueSize : Nat} {s : State T} (inv : Inv queueSize s) :
    CacheBuffer.nextPosition queueSize s.filled.length s.visitor.nextMsgIndex = s.position queueSize := by
  rw [inv.next]
  unfold CacheBuffer.nextPosition State.position State.expected
  by_cases first : s.fetched = []
  · simp [first]
  · simp only [if_neg first]
    refine if_congr (and_congr (by simp [first]) ?_) rfl rfl
    omega

theorem Inv.tryFetch_eq {queueSize : Nat} {s : State T} (inv : Inv queueSize s) :
    s.visitor.tryFetch =
      if s.last = s.filled.length then none
      else some (s.filled[s.position queueSize - 1]?,
        { s.visitor with nextMsgIndex := s.position queueSize + 1 }) := by
  have last := inv.last
  have bound : s.visitor.nextMsgIndex ≤ s.filled.length + 1 := by
    rw [inv.next, State.expected]
    split <;> omega
  have upToDate : (s.filled = [] ∨ s.visitor.nextMsgIndex = s.filled.length + 1) ↔ s.last = s.filled.length := by
    rw [inv.next, State.expected, ← List.length_eq_zero_iff]
    by_cases first : s.fetched = []
    · rw [if_pos first, last_eq_zero first]
      omega
    · rw [if_neg first]
      omega
  unfold DataVisitor.tryFetch
  rw [inv.holds.fetch bound]
  by_cases newest : s.last = s.filled.length
  · rw [if_pos (upToDate.mpr newest), if_pos newest]
  · rw [if_neg (mt upToDate.mp newest), if_neg newest, inv.position_eq]

theorem Inv.position_bounds {queueSize : Nat} {s : State T} (inv : Inv queueSize s)
    (newer : s.last ≠ s.filled.length) : s.last < s.position queueSize ∧ s.position queueSize ≤ s.filled.length := by
  have last := inv.last
  unfold State.position
  split <;> omega

theorem tryFetch_filled (s : State T) : s.tryFetch.filled = s.filled := by
  unfold State.tryFetch
  split <;> rfl

/-- A fetch that finds nothing new changes nothing. -/
theorem Inv.tryFetch_newest {queueSize : Nat} {s : State T} (inv : Inv queueSize s)
    (newest : s.last = s.filled.length) : s.tryFetch = s := by
  unfold State.tryFetch
  rw [inv.tryFetch_eq, if_pos newest]

theorem Inv.tryFetch_state {queueSize : Nat} {s : State T} (inv : Inv queueSize s)
    (newer : s.last ≠ s.filled.length) :
    s.tryFetch =
      { s with visitor := { s.visitor with nextMsgIndex := s.position queueSize + 1 }
               fetched := s.fetched ++ [(s.position queueSize, s.filled[s.position queueSize - 1]?)] } := by
  unfold State.tryFetch
  rw [inv.tryFetch_eq, if_neg newer]
  rfl

theorem inv_new (queueSize : Nat) : Inv queueSize (.new queueSize : State T) where
  holds := CacheBuffer.holds_new queueSize
  ordered := .nil
  read := by simp [State.new]
  last := le_rfl
  next := rfl

theorem Inv.fill {queueSize : Nat} {s : State T} (inv : Inv queueSize s) (msg : T) : Inv queueSize (s.fill msg) where
  holds := inv.holds.fill msg
  ordered := inv.ordered
  read r member := by
    obtain ⟨positive, bound, same⟩ := inv.read r member
    have last := inv.last
    refine ⟨positive, bound, same.trans ?_⟩
    rw [State.fill, List.getElem?_append_left (by omega)]
  last := by
    have last := inv.last
    rw [State.fill, List.length_append]
    exact last.trans (Nat.le_add_right _ _)
  next := inv.next

theorem Inv.tryFetch {queueSize : Nat} {s : State T} (inv : Inv queueSize s) : Inv queueSize s.tryFetch := by
  by_cases newest : s.last = s.filled.length
  · rw [inv.tryFetch_newest newest]
    exact inv
  · obtain ⟨lower, upper⟩ := inv.position_bounds newest
    rw [inv.tryFetch_state newest]
    refine ⟨inv.holds, ?_, fun r member => ?_, ?_, ?_⟩
    · rw [List.map_append, List.pairwise_append]
      refine ⟨inv.ordered, List.pairwise_singleton _ _, fun p before q now => ?_⟩
      obtain ⟨r, member, rfl⟩ := List.mem_map.mp before
      have bound := (inv.read r member).2.1
      have same : q = s.position queueSize := by simpa using now
      omega
    · simp only [State.last, List.getLast?_concat, Option.map_some, Option.getD_some]
      rcases List.mem_append.mp member with before | now
      · obtain ⟨positive, bound, same⟩ := inv.read r before
        exact ⟨positive, by omega, same⟩
      · have same : r = (s.position queueSize, s.filled[s.position queueSize - 1]?) := by simpa using now
        subst same
        exact ⟨by omega, le_rfl, rfl⟩
    · simpa [State.last] using upper
    · simp [State.expected, State.last]

theorem inv_reach {queueSize : Nat} {s : State T} (reach : (machine T queueSize).Reach s) : Inv queueSize s := by
  refine reach.invariant (inv_new queueSize) fun s e s' inv step => ?_
  cases e with
  | fill msg =>
    cases step
    exact inv.fill msg
  | tryFetch =>
    cases step
    exact inv.tryFetch

theorem Inv.delivers {queueSize : Nat} {s : State T} (inv : Inv queueSize s) : Delivers queueSize s where
  ordered := inv.ordered
  filled r member := by
    obtain ⟨positive, bound, same⟩ := inv.read r member
    exact ⟨positive, bound.trans inv.last, same⟩
  fails := by
    rw [inv.tryFetch_eq]
    split <;> simp [*]
  takes msg visitor taken := by
    rw [inv.tryFetch_eq] at taken
    split at taken
    · cases taken
    · rename_i newer
      cases taken
      obtain ⟨lower, upper⟩ := inv.position_bounds newer
      refine ⟨s.position queueSize, lower, upper, rfl, ?_, rfl⟩
      rw [inv.tryFetch_state newer]
      simp [State.last]
  ring := by
    have head := inv.holds.head
    exact ⟨inv.holds.tail, by omega, inv.holds.recent⟩
  multi k := inv.holds.fetchMulti k []

/-- In every interleaving of fills and fetches, for every queue size. -/
theorem channel_delivers {queueSize : Nat} {s : State T} (reach : (machine T queueSize).Reach s) :
    Delivers queueSize s :=
  (inv_reach reach).delivers

/-- A queue of two: the first fetch finds one message, the second finds that the next one is gone. -/
def overflow : List (Event Nat) :=
  [.tryFetch, .fill 1, .tryFetch, .tryFetch, .fill 2, .fill 3, .fill 4, .tryFetch, .fill 5, .fill 6]

theorem overflow_delivers :
    let s := (machine Nat 2).stateAt overflow 10
    s.fetched = [(1, some 1), (4, some 4)] ∧ s.tryFetch.fetched = [(1, some 1), (4, some 4), (5, some 5)] ∧
      s.visitor.buffer.fetchMulti 5 [] = (true, [some 5, some 6]) ∧ Delivers 2 s :=
  ⟨by decide, by decide, by decide, channel_delivers (Machine.stateAt_reach overflow rfl)⟩

/-- Values at increasing positions are a part of the list in its order. -/
theorem sublist_of_positions {values : List T} {read : List (Nat × Option T)}
    (ordered : (read.map Prod.fst).Pairwise (· < ·))
    (there : ∀ r ∈ read, 0 < r.1 ∧ r.1 ≤ values.length ∧ r.2 = values[r.1 - 1]?) :
    (read.filterMap Prod.snd).Sublist values := by
  suffices upTo : ∀ n, (∀ r ∈ read, r.1 ≤ n) → (read.filterMap Prod.snd).Sublist (values.take n) by
    have whole := upTo values.length fun r member => (there r member).2.1
    rwa [List.take_length] at whole
  induction read using List.reverseRecOn with
  | nil => exact fun n _ => List.nil_sublist _
  | append_singleton read r ih =>
    intro n bound
    rw [List.map_append, List.pairwise_append] at ordered
    obtain ⟨positive, inside, value⟩ := there r (List.mem_append_right _ (List.mem_singleton_self r))
    have before := ih ordered.1 (fun q member => there q (List.mem_append_left _ member)) (r.1 - 1) fun q member => by
      have less := ordered.2.2 q.1 (List.mem_map_of_mem member) r.1 (List.mem_singleton_self _)
      omega
    have here : values[r.1 - 1]? = some values[r.1 - 1] := List.getElem?_eq_getElem (by omega)
    have next : values.take r.1 = values.take (r.1 - 1) ++ [values[r.1 - 1]] := by
      have split := List.take_succ_eq_append_getElem (i := r.1 - 1) (l := values) (by omega)
      rwa [Nat.sub_add_cancel positive] at split
    have last : [r].filterMap Prod.snd = [values[r.1 - 1]] := by
      rw [List.filterMap_cons, value, here, List.filterMap_nil]
    rw [List.filterMap_append, last]
    have upTo := bound r (List.mem_append_right _ (List.mem_singleton_self r))
    have inOrder : (values.take r.1).Sublist (values.take n) := List.take_sublist_take_left upTo
    rw [next] at inOrder
    exact (before.append (List.Sublist.refl _)).trans inOrder

theorem Delivers.sublist {queueSize : Nat} {s : State T} (delivers : Delivers queueSize s) :
    (s.fetched.filterMap Prod.snd).Sublist s.filled :=
  sublist_of_positions delivers.ordered delivers.filled

/-- The reader has fetched every message up to the last it has read, and those after it are in the buffer. -/
structure InStep (queueSize : Nat) (s : State T) : Prop where
  fetched : s.fetched.map Prod.snd = (s.filled.take s.last).map some
  first : s.fetched = [] → s.filled.length ≤ 1
  later : s.fetched ≠ [] → s.filled.length ≤ s.last + queueSize

theorem InStep.values {queueSize : Nat} {s : State T} (inStep : InStep queueSize s) :
    s.fetched.filterMap Prod.snd = s.filled.take s.last := by
  have all := congrArg (List.filterMap id) inStep.fetched
  rw [List.filterMap_map, List.filterMap_map] at all
  exact all.trans List.filterMap_some

theorem InStep.fill {queueSize : Nat} {s : State T} (inStep : InStep queueSize s) (inv : Inv queueSize s)
    (room : s.filled.length < s.last + if s.fetched = [] then 1 else queueSize) (msg : T) :
    InStep queueSize (s.fill msg) where
  fetched := by
    have kept : (s.filled ++ [msg]).take s.last = s.filled.take s.last := List.take_append_of_le_length inv.last
    exact inStep.fetched.trans (congrArg (List.map some) kept.symm)
  first (none : s.fetched = []) := by
    have start := last_eq_zero none
    rw [if_pos none, start] at room
    rw [State.fill, List.length_append, List.length_singleton]
    omega
  later (some : s.fetched ≠ []) := by
    rw [if_neg some] at room
    have bound : (s.filled ++ [msg]).length ≤ s.last + queueSize := by
      rw [List.length_append, List.length_singleton]
      omega
    exact bound

theorem InStep.position_eq {queueSize : Nat} {s : State T} (inStep : InStep queueSize s)
    (newer : s.last ≠ s.filled.length) : s.position queueSize = s.last + 1 := by
  unfold State.position
  by_cases none : s.fetched = []
  · have start := last_eq_zero none
    have one := inStep.first none
    rw [if_neg fun some => some.1 none]
    omega
  · have bound := inStep.later none
    rw [if_pos ⟨none, by omega⟩]

theorem last_concat (s : State T) (visitor : DataVisitor T) (position : Nat) (msg : Option T) :
    State.last { s with visitor := visitor, fetched := s.fetched ++ [(position, msg)] } = position := by
  rw [State.last, List.getLast?_concat]
  rfl

theorem InStep.tryFetch {queueSize : Nat} {s : State T} (inStep : InStep queueSize s) (inv : Inv queueSize s) :
    InStep queueSize s.tryFetch := by
  by_cases newest : s.last = s.filled.length
  · rw [inv.tryFetch_newest newest]
    exact inStep
  · have more := inv.last
    have read : s.filled[s.last]? = some s.filled[s.last] := List.getElem?_eq_getElem (by omega)
    rw [inv.tryFetch_state newest, inStep.position_eq newest, Nat.add_sub_cancel]
    refine ⟨?_, fun none => absurd none (List.append_ne_nil_of_right_ne_nil _ (List.cons_ne_nil _ _)), fun _ => ?_⟩
    · rw [last_concat, List.map_append, inStep.fetched, List.take_add_one, List.map_append, List.map_singleton, read]
      rfl
    · rw [last_concat]
      dsimp only
      by_cases none : s.fetched = []
      · have one := inStep.first none
        omega
      · have bound := inStep.later none
        omega

end ChannelDelivery

end CyberRT

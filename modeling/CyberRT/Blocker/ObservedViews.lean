import CyberRT.Blocker.Blocker

namespace CyberRT
open Concur

inductive ViewOp (α : Type)
  | publish (msg : α)
  | observe
  | clearData
  | setHistoryDepth (depth : Nat)

namespace ViewOp
variable {α : Type}

-- A history has the newest operation first. It begins with the depth `d`.

/-- The messages published since the last clear, newest first. -/
def published : List (ViewOp α) → List α
  | [] => []
  | .publish msg :: ops => msg :: published ops
  | .clearData :: _ => []
  | .observe :: ops | .setHistoryDepth _ :: ops => published ops

def depth (d : Nat) : List (ViewOp α) → Nat
  | [] => d
  | .setHistoryDepth depth :: _ => depth
  | .publish _ :: ops | .observe :: ops | .clearData :: ops => depth d ops

/-- How many of these messages are kept: at most as many as the depth was at any time since. -/
def kept (d : Nat) : List (ViewOp α) → Nat
  | [] => 0
  | .publish _ :: ops => min (kept d ops + 1) (depth d ops)
  | .clearData :: _ => 0
  | .setHistoryDepth depth :: ops => min (kept d ops) depth
  | .observe :: ops => kept d ops

/-- The messages as they stood at the last `Observe`. -/
def observed (d : Nat) : List (ViewOp α) → List α
  | [] => []
  | .observe :: ops => (published ops).take (kept d ops)
  | .clearData :: _ => []
  | .publish _ :: ops | .setHistoryDepth _ :: ops => observed d ops

/-- Every message since the last clear came at the depth zero, or the depth was set to zero after it. -/
def NoneKept (d : Nat) : List (ViewOp α) → Prop
  | [] => True
  | .publish _ :: ops => depth d ops = 0
  | .clearData :: _ => True
  | .setHistoryDepth depth :: ops => depth = 0 ∨ NoneKept d ops
  | .observe :: ops => NoneKept d ops

/-- There was no `Observe` since the last clear, or no message was kept at the last one. -/
def NoneSeen (d : Nat) : List (ViewOp α) → Prop
  | [] => True
  | .observe :: ops => NoneKept d ops
  | .clearData :: _ => True
  | .publish _ :: ops | .setHistoryDepth _ :: ops => NoneSeen d ops

variable {d : Nat}

theorem kept_le_depth (ops : List (ViewOp α)) : kept d ops ≤ depth d ops := by
  induction ops with
  | nil => exact Nat.zero_le _
  | cons op ops ih =>
    cases op with
    | publish msg => exact Nat.min_le_right _ _
    | observe => exact ih
    | clearData => exact Nat.zero_le _
    | setHistoryDepth depth => exact Nat.min_le_right _ _

theorem kept_le_length (ops : List (ViewOp α)) : kept d ops ≤ (published ops).length := by
  induction ops with
  | nil => exact le_rfl
  | cons op ops ih =>
    cases op with
    | publish msg => exact le_trans (Nat.min_le_left _ _) (Nat.succ_le_succ ih)
    | observe => exact ih
    | clearData => exact Nat.zero_le _
    | setHistoryDepth depth => exact le_trans (Nat.min_le_left _ _) ih

theorem depth_of_never_set {ops : List (ViewOp α)} (never : ∀ depth, .setHistoryDepth depth ∉ ops) :
    depth d ops = d := by
  induction ops with
  | nil => rfl
  | cons op ops ih =>
    have rest := ih fun depth member => never depth (List.mem_cons_of_mem _ member)
    cases op with
    | setHistoryDepth depth => exact absurd List.mem_cons_self (never depth)
    | publish msg => exact rest
    | observe => exact rest
    | clearData => exact rest

/-- With one depth all the time the last messages are kept, as many as it allows. -/
theorem kept_of_never_set {ops : List (ViewOp α)} (never : ∀ depth, .setHistoryDepth depth ∉ ops) :
    kept d ops = min (published ops).length d := by
  induction ops with
  | nil => exact (Nat.zero_min d).symm
  | cons op ops ih =>
    have neverBefore := fun depth member => never depth (List.mem_cons_of_mem op member)
    have rest := ih neverBefore
    cases op with
    | setHistoryDepth depth => exact absurd List.mem_cons_self (never depth)
    | publish msg =>
      simp only [kept, rest, depth_of_never_set neverBefore, published, List.length_cons]
      omega
    | observe => exact rest
    | clearData => exact (Nat.zero_min d).symm

theorem kept_eq_zero_iff {ops : List (ViewOp α)} : kept d ops = 0 ↔ NoneKept d ops := by
  induction ops with
  | nil => exact iff_of_true rfl trivial
  | cons op ops ih =>
    cases op with
    | publish msg =>
      simp only [kept, NoneKept]
      omega
    | observe => exact ih
    | clearData => exact iff_of_true rfl trivial
    | setHistoryDepth depth =>
      simp only [kept, NoneKept, ← ih]
      omega

theorem observed_eq_nil_iff {ops : List (ViewOp α)} : observed d ops = [] ↔ NoneSeen d ops := by
  induction ops with
  | nil => exact iff_of_true rfl trivial
  | cons op ops ih =>
    cases op with
    | observe =>
      have count := kept_le_length (d := d) ops
      simp only [observed, NoneSeen, ← kept_eq_zero_iff, List.take_eq_nil_iff]
      constructor
      · rintro (none | none)
        · exact none
        · rw [none] at count
          exact Nat.le_zero.mp count
      · exact Or.inl
    | clearData => exact iff_of_true rfl trivial
    | publish msg => exact ih
    | setHistoryDepth depth => exact ih

end ViewOp

open ViewOp

variable {α : Type} {d : Nat}

namespace Reader

def create (depth : Nat) : Blocker α :=
  .create depth

def apply (b : Blocker α) : ViewOp α → Blocker α
  | .publish msg => enqueue b msg
  | .observe => observe b
  | .clearData => clearData b
  | .setHistoryDepth depth => setHistoryDepth b depth

def run (b : Blocker α) (ops : List (ViewOp α)) : Blocker α :=
  ops.foldl apply b

end Reader

namespace IntraReader

def apply (r : IntraReader) (m : BlockerManager α) : ViewOp α → BlockerManager α
  | .publish msg => r.enqueue m msg
  | .observe => r.observe m
  | .clearData => r.clearData m
  | .setHistoryDepth depth => r.setHistoryDepth m depth

def run (r : IntraReader) (m : BlockerManager α) (ops : List (ViewOp α)) : BlockerManager α :=
  ops.foldl r.apply m

/-- A reader of the simulation mode does to its blocker what the other reader does. -/
theorem getBlocker_apply {r : IntraReader} {m : BlockerManager α} {b : Blocker α}
    (held : m.getBlocker r.channelName = some b) (op : ViewOp α) :
    (r.apply m op).getBlocker r.channelName = some (Reader.apply b op) := by
  cases op with
  | publish msg =>
    simp only [apply, enqueue, BlockerManager.publish, BlockerManager.getOrCreateBlocker_of_some held,
      BlockerManager.getBlocker_change, held, Option.map_some, Reader.apply, Reader.enqueue]
  | observe | clearData | setHistoryDepth depth =>
    exact (BlockerManager.getBlocker_change m r.channelName _).trans (by rw [held]; rfl)

theorem getBlocker_run {r : IntraReader} {m : BlockerManager α} {b : Blocker α}
    (held : m.getBlocker r.channelName = some b) (ops : List (ViewOp α)) :
    (r.run m ops).getBlocker r.channelName = some (Reader.run b ops) := by
  induction ops generalizing m b with
  | nil => exact held
  | cons op ops ih => exact ih (getBlocker_apply held op)

/-- The first reader of a channel creates its blocker. -/
theorem getBlocker_init {r : IntraReader} (first : r.isInit = false) {m : BlockerManager α}
    (fresh : m.blockers.lookup r.channelName = none) :
    (r.init m).2.2.getBlocker r.channelName =
      some ⟨r.depth, [], [], [r.nodeName]⟩ := by
  have created : m.getOrCreateBlocker r.depth r.channelName =
      (some (.create r.depth), ⟨m.blockers.insert r.channelName (some (.create r.depth))⟩) := by
    rw [BlockerManager.getOrCreateBlocker, fresh]
  have inserted : (⟨m.blockers.insert r.channelName (some (.create r.depth))⟩ : BlockerManager α).getBlocker
      r.channelName = some (.create r.depth) := by
    rw [BlockerManager.getBlocker, AList.lookup_insert, Option.join_some]
  simp only [init, first, Bool.false_eq_true, if_false, BlockerManager.subscribe, created,
    BlockerManager.getBlocker_change, inserted, Option.map_some]
  rfl

end IntraReader

namespace Blocker

/-- The blocker holds the messages of a history. -/
structure Holds (d : Nat) (history : List (ViewOp α)) (b : Blocker α) : Prop where
  capacity : b.capacity = ViewOp.depth d history
  published : b.publishedMsgQueue = (ViewOp.published history).take (kept d history)
  observed : b.observedMsgQueue = ViewOp.observed d history

theorem Holds.apply {history : List (ViewOp α)} {b : Blocker α} (holds : b.Holds d history) (op : ViewOp α) :
    (Reader.apply b op).Holds d (op :: history) := by
  obtain ⟨capacity, published, observed⟩ := holds
  cases op with
  | publish msg =>
    have bound := kept_le_depth (d := d) history
    simp only [Reader.apply, Reader.enqueue, enqueue]
    split
    · rename_i zero
      -- nothing was kept, and nothing is
      have none : kept d history = 0 := by omega
      have still : kept d (.publish msg :: history) = 0 := by
        simp only [kept]
        omega
      refine ⟨capacity, ?_, observed⟩
      rw [published, none, still, List.take_zero, List.take_zero]
    · rename_i positive
      refine ⟨capacity, ?_, observed⟩
      simp only [trim_eq_take, published, capacity, kept, ViewOp.published]
      rw [← List.take_succ_cons, List.take_take, min_comm]
  | observe => exact ⟨capacity, published, published⟩
  | clearData => exact ⟨capacity, rfl, rfl⟩
  | setHistoryDepth depth =>
    refine ⟨rfl, ?_, observed⟩
    simp only [Reader.apply, Reader.setHistoryDepth, setCapacity, trim_eq_take, published, List.take_take, kept,
      ViewOp.published]
    rw [min_comm]

theorem Holds.run {history : List (ViewOp α)} {b : Blocker α} (holds : b.Holds d history) (ops : List (ViewOp α)) :
    (Reader.run b ops).Holds d (ops.reverse ++ history) := by
  induction ops generalizing b history with
  | nil => exact holds
  | cons op ops ih =>
    rw [List.reverse_cons, List.append_assoc, List.singleton_append]
    exact ih (holds.apply op)

theorem holds_create (callbacks : List String) : (⟨d, [], [], callbacks⟩ : Blocker α).Holds d [] :=
  ⟨rfl, rfl, rfl⟩

theorem range_eq (b : Blocker α) : Reader.range b = b.observedMsgQueue := by
  simp only [Reader.range, Reader.rangeBegin, Reader.rangeEnd, between, observedBegin, observedEnd, List.take_length,
    List.drop_zero]

end Blocker

/-- Both readers have observed these messages and show them in the same way. -/
structure ViewsAgree (r : IntraReader) (m : BlockerManager α) (b : Blocker α) (observed : List α) : Prop where
  intraObserved : (m.getBlocker r.channelName).map Blocker.observedMsgQueue = some observed
  observed : b.observedMsgQueue = observed
  empty : r.empty m = Reader.empty b
  latest : r.getLatestObserved m = Reader.getLatestObserved b
  oldest : r.getOldestObserved m = Reader.getOldestObserved b
  range : r.range m = some (Reader.range b)

/-- The range of a reader of the simulation mode is always empty. -/
theorem IntraReader.range_eq {r : IntraReader} {m : BlockerManager α} {b : Blocker α}
    (held : m.getBlocker r.channelName = some b) : r.range m = some [] := by
  simp only [range, rangeBegin, rangeEnd, held, Option.map_some, Option.bind_eq_bind, Option.bind_some,
    Option.pure_def, Blocker.between, Blocker.observedBegin, List.take_zero, List.drop_nil]

theorem Reader.observed_run (ops : List (ViewOp α)) :
    (Reader.run (Reader.create d) ops).observedMsgQueue = ViewOp.observed d ops.reverse := by
  have holds := ((Blocker.holds_create (d := d) []).run ops).observed
  rwa [List.append_nil] at holds

/-- The views agree but for the range, and in the range if nothing is there to be seen. -/
theorem viewsAgree_iff {r : IntraReader} (first : r.isInit = false) {m : BlockerManager α}
    (fresh : m.blockers.lookup r.channelName = none) (ops : List (ViewOp α)) :
    ViewsAgree r (r.run (r.init m).2.2 ops) (Reader.run (Reader.create r.depth) ops) (observed r.depth ops.reverse) ↔
      NoneSeen r.depth ops.reverse := by
  have held := IntraReader.getBlocker_run (IntraReader.getBlocker_init first fresh) ops
  have intra := ((Blocker.holds_create (α := α) (d := r.depth) [r.nodeName]).run ops).observed
  have reader := Reader.observed_run (d := r.depth) ops
  have range := IntraReader.range_eq held
  rw [List.append_nil] at intra
  generalize Reader.run ⟨r.depth, [], [], [r.nodeName]⟩ ops = own at held intra
  generalize r.run (r.init m).2.2 ops = m at held range
  rw [← observed_eq_nil_iff]
  constructor
  · intro agree
    have same := agree.range
    rw [range, Blocker.range_eq, reader] at same
    exact (Option.some.inj same).symm
  · intro none
    exact {
      intraObserved := by rw [held, Option.map_some, intra]
      observed := reader
      empty := by
        simp only [IntraReader.empty, held, Option.map_some, Option.getD_some, Reader.empty, Blocker.isObservedEmpty,
          intra, reader]
      latest := by
        simp only [IntraReader.getLatestObserved, held, Option.bind_some, Reader.getLatestObserved,
          Blocker.getLatestObservedPtr, intra, reader]
      oldest := by
        simp only [IntraReader.getOldestObserved, held, Option.bind_some, Reader.getOldestObserved,
          Blocker.getOldestObservedPtr, intra, reader]
      range := by rw [range, Blocker.range_eq, reader, none] }

/-- A message that came while the depth was zero is seen by neither. -/
theorem viewsAgree_depth_zero :
    ViewsAgree ⟨"channel", "node", 0, false⟩
      (IntraReader.run ⟨"channel", "node", 0, false⟩ (IntraReader.init ⟨"channel", "node", 0, false⟩ ⟨∅⟩).2.2
        [.publish 7, .observe])
      (Reader.run (Reader.create 0) [.publish 7, .observe]) [] :=
  (viewsAgree_iff (r := ⟨"channel", "node", 0, false⟩) rfl rfl [.publish 7, .observe]).mpr rfl

/-- One message is observed, and the reader of the simulation mode has nothing between `Begin` and `End`. -/
theorem not_viewsAgree :
    ¬ViewsAgree ⟨"channel", "node", 1, false⟩
      (IntraReader.run ⟨"channel", "node", 1, false⟩ (IntraReader.init ⟨"channel", "node", 1, false⟩ ⟨∅⟩).2.2
        [.publish 7, .observe])
      (Reader.run (Reader.create 1) [.publish 7, .observe])
      (observed 1 [.observe, .publish 7]) := by
  intro agree
  have same := agree.range
  have held := IntraReader.getBlocker_run (IntraReader.getBlocker_init (r := ⟨"channel", "node", 1, false⟩) rfl
    (m := ⟨∅⟩) rfl) [.publish 7, .observe]
  rw [IntraReader.range_eq held, Blocker.range_eq, Reader.observed_run] at same
  exact absurd same (by decide)

end CyberRT

import CyberRT.Blocker.Blocker
import CyberRT.Data.AllLatest

namespace CyberRT

/-- `GetLatestPublishedPtr` -/
def Blocker.getLatestPublishedPtr {α : Type} (b : Blocker α) : Option α :=
  b.publishedMsgQueue.head?

theorem Blocker.isPublishedEmpty_iff {α : Type} (b : Blocker α) :
    b.isPublishedEmpty = false ↔ b.getLatestPublishedPtr.isSome = true := by
  unfold isPublishedEmpty getLatestPublishedPtr
  cases b.publishedMsgQueue with
  | nil => exact ⟨nofun, nofun⟩
  | cons msg queue => exact ⟨fun _ => rfl, fun _ => rfl⟩

theorem Blocker.enqueue_latest {α : Type} {b : Blocker α} (room : 0 < b.capacity) (msg : α) :
    (b.enqueue msg).getLatestPublishedPtr = some msg ∧ (b.enqueue msg).capacity = b.capacity := by
  unfold enqueue getLatestPublishedPtr
  rw [if_neg (Nat.ne_of_gt room), trim_eq_take]
  obtain ⟨more, capacity⟩ := Nat.exists_eq_add_of_lt room
  dsimp only
  rw [capacity, Nat.zero_add, List.take_succ_cons]
  exact ⟨rfl, rfl⟩

namespace Component
open Concur AllLatest

variable {ι : Type} [Fintype ι] [DecidableEq ι] {M0 : Type} {M : ι → Type}

/-- A component in the simulation mode, with the blockers of its channels and the calls of `Process` so far. -/
structure Simulated (M0 : Type) (M : ι → Type) where
  blocker0 : Blocker M0
  blockers : (i : ι) → Blocker (M i)
  processed : List (Fused M0 M)

namespace Simulated

omit [Fintype ι] [DecidableEq ι] in
def create (capacity0 : Nat) (capacities : ι → Nat) : Simulated M0 M :=
  ⟨.create capacity0, fun i => .create (capacities i), []⟩

/-- The callback of the first reader. -/
def callback (s : Simulated M0 M) (m0 : M0) : Simulated M0 M :=
  if ∀ i, (s.blockers i).isPublishedEmpty = false then
    { s with processed := s.processed ++ [(m0, fun i => (s.blockers i).getLatestPublishedPtr)] }
  else s

/-- `Publish` on one of the channels. Only the first reader has a callback. -/
def publish (s : Simulated M0 M) : Fill M0 M → Simulated M0 M
  | .first m0 => { s with blocker0 := s.blocker0.enqueue m0 }.callback m0
  | .other i m => { s with blockers := Function.update s.blockers i ((s.blockers i).enqueue m) }

end Simulated

/-- What a component processes in simulation when these messages are published. -/
def simulate (capacity0 : Nat) (capacities : ι → Nat) (fills : List (Fill M0 M)) : List (Fused M0 M) :=
  (fills.foldl Simulated.publish (.create capacity0 capacities)).processed

/-- The newest message on each of the other channels is `now`. -/
structure Shows (now : (i : ι) → Option (M i)) (s : Simulated M0 M) : Prop where
  latest : ∀ i, (s.blockers i).getLatestPublishedPtr = now i
  room : ∀ i, 0 < (s.blockers i).capacity

variable {now : (i : ι) → Option (M i)} {s : Simulated M0 M}

theorem Shows.publish_other (shows' : Shows now s) (i : ι) (m : M i) :
    Shows (Function.update now i (some m)) (s.publish (.other i m)) := by
  have enqueued := Blocker.enqueue_latest (shows'.room i) m
  constructor
  · intro j
    by_cases own : j = i
    · subst own
      simp only [Simulated.publish, Function.update_self]
      exact enqueued.1
    · simp only [Simulated.publish, Function.update_of_ne own]
      exact shows'.latest j
  · intro j
    by_cases own : j = i
    · subst own
      simp only [Simulated.publish, Function.update_self]
      rw [enqueued.2]
      exact shows'.room j
    · simp only [Simulated.publish, Function.update_of_ne own]
      exact shows'.room j

theorem Shows.publish_first (shows' : Shows now s) (m0 : M0) :
    Shows now (s.publish (.first m0)) ∧
      (s.publish (.first m0)).processed = s.processed ++ tuples now [.first m0] := by
  have full : (∀ i, (s.blockers i).isPublishedEmpty = false) ↔ ∀ i, (now i).isSome = true :=
    forall_congr' fun i => by rw [Blocker.isPublishedEmpty_iff, shows'.latest]
  have ptrs : (fun i => (s.blockers i).getLatestPublishedPtr) = now := funext shows'.latest
  simp only [Simulated.publish, Simulated.callback, tuples, List.append_nil]
  by_cases all : ∀ i, (now i).isSome = true
  · rw [if_pos (full.mpr all), if_pos all, ptrs]
    exact ⟨⟨shows'.latest, shows'.room⟩, rfl⟩
  · rw [if_neg (mt full.mp all), if_neg all, List.append_nil]
    exact ⟨⟨shows'.latest, shows'.room⟩, rfl⟩

theorem Shows.publishAll (shows' : Shows now s) (fills : List (Fill M0 M)) :
    (fills.foldl Simulated.publish s).processed = s.processed ++ tuples now fills := by
  induction fills generalizing now s with
  | nil => exact (List.append_nil _).symm
  | cons msg fills ih =>
    cases msg with
    | first m0 =>
      obtain ⟨next, processed⟩ := shows'.publish_first m0
      rw [List.foldl_cons, ih next, processed, List.append_assoc]
      simp only [tuples, List.append_nil]
    | other i m => exact ih (shows'.publish_other i m)

/-- In simulation a component processes each message of the first channel with the newest of the others. -/
theorem simulate_eq {capacities : ι → Nat} (room : ∀ i, 0 < capacities i) (capacity0 : Nat)
    (fills : List (Fill M0 M)) : simulate capacity0 capacities fills = tuples (fun _ => none) fills :=
  Shows.publishAll ⟨fun _ => rfl, room⟩ fills

/-- What the coroutine of a component has processed: all that it has fetched. -/
def processed (s : AllLatest.State M0 M) : List (Fused M0 M) :=
  s.reader.fetched.filterMap Prod.snd

/-- The visitor of a component whose channels had no messages before. -/
def reality (queueSize : Nat) (queueSizes : ι → Nat) : Machine (AllLatest.State M0 M) (AllLatest.Event M0 M) :=
  AllLatest.machine (.filledWith queueSize []) fun i => .filledWith (queueSizes i) []

/-- The fused buffer receives what simulation would process. -/
theorem filled_eq_simulate {queueSize : Nat} {queueSizes capacities : ι → Nat} (room : ∀ i, 0 < capacities i)
    (capacity0 : Nat) {s : AllLatest.State M0 M} (reach : (reality queueSize queueSizes).Reach s) :
    s.reader.filled = simulate capacity0 capacities s.fills := by
  have inv := AllLatest.inv_reach reach
  exact inv.filled.trans (simulate_eq room capacity0 s.fills).symm

/-- What the coroutine processes is what simulation would process with some calls left out: no message of the first
channel comes with others than the newest before it, none twice and none before an earlier one. -/
theorem reality_processes_simulated {queueSize : Nat} {queueSizes : ι → Nat} (capacity0 : Nat)
    {capacities : ι → Nat} (room : ∀ i, 0 < capacities i) {s : AllLatest.State M0 M}
    (reach : (reality queueSize queueSizes).Reach s) :
    (processed s).Sublist (simulate capacity0 capacities s.fills) := by
  have inv := AllLatest.inv_reach reach
  rw [← filled_eq_simulate room capacity0 reach]
  exact inv.reader.delivers.sublist

/-- Two messages of the first channel before the first fetch. -/
def behind : List (AllLatest.Event Nat fun _ : Unit => Nat) :=
  [.fill (.other () 1), .fill (.first 9), .fill (.first 10), .fusion]

theorem reality_processes_simulated_behind :
    let s := (reality 2 fun _ : Unit => 2).stateAt behind 4
    processed s = [(10, fun _ => some 1)] ∧
      simulate 2 (fun _ => 2) s.fills = [(9, fun _ => some 1), (10, fun _ => some 1)] ∧
      (processed s).Sublist (simulate 2 (fun _ => 2) s.fills) :=
  ⟨by decide, (simulate_eq (fun _ => Nat.two_pos) 2 _).trans (by decide),
    reality_processes_simulated 2 (fun _ => Nat.two_pos) (Machine.stateAt_reach behind rfl)⟩

/-- At most one message of the first channel comes before the first fetch, and later no more than there is room
for. -/
def KeepsUp (queueSize : Nat) (s : AllLatest.State M0 M) : AllLatest.Event M0 M → Prop
  | .fill (.first _) => s.reader.filled.length < s.reader.last + if s.reader.fetched = [] then 1 else queueSize
  | _ => True

instance (queueSize : Nat) (s : AllLatest.State M0 M) (e : AllLatest.Event M0 M) : Decidable (KeepsUp queueSize s e) :=
  match e with
  | .fill (.first _) => inferInstanceAs (Decidable (_ < _))
  | .fill (.other _ _) => inferInstanceAs (Decidable True)
  | .fusion => inferInstanceAs (Decidable True)

theorem inStep_reach {queueSize : Nat} {queueSizes : ι → Nat} {s : AllLatest.State M0 M}
    (reach : (reality queueSize queueSizes).ReachWhen (KeepsUp queueSize) s) :
    ChannelDelivery.InStep queueSize s.reader := by
  refine reach.invariant_of_reach (P := fun s => ChannelDelivery.InStep queueSize s.reader) ?_
    fun s e s' before inStep allowed step => ?_
  · exact ⟨rfl, fun _ => Nat.zero_le _, fun _ => Nat.zero_le _⟩
  · have inv := (AllLatest.inv_reach before).reader
    cases e with
    | fusion =>
      cases step
      exact inStep.tryFetch inv
    | fill msg =>
      cases step
      cases msg with
      | other i m => exact inStep
      | first m0 =>
        unfold AllLatest.fill
        simp only
        split
        · exact inStep.fill inv allowed _
        · exact inStep

/-- While the coroutine keeps up, both modes process the same calls in the same order: reality has processed the first
of them, and all when there is nothing to fetch. -/
theorem modes_agree {queueSize : Nat} {queueSizes : ι → Nat} (capacity0 : Nat) {capacities : ι → Nat}
    (room : ∀ i, 0 < capacities i) {s : AllLatest.State M0 M}
    (reach : (reality queueSize queueSizes).ReachWhen (KeepsUp queueSize) s) :
    processed s <+: simulate capacity0 capacities s.fills ∧
      (s.reader.visitor.tryFetch = none → processed s = simulate capacity0 capacities s.fills) := by
  have inv := AllLatest.inv_reach reach.reach
  have fetched : processed s = s.reader.filled.take s.reader.last := (inStep_reach reach).values
  rw [← filled_eq_simulate room capacity0 reach.reach, fetched]
  refine ⟨List.take_prefix _ _, fun done => ?_⟩
  rw [inv.reader.delivers.fails.mp done, List.take_length]

def inTime : List (AllLatest.Event Nat fun _ : Unit => Nat) :=
  [.fill (.other () 1), .fill (.first 9), .fusion, .fill (.first 10), .fill (.other () 2), .fill (.first 11), .fusion,
    .fusion]

theorem modes_agree_inTime :
    let s := (reality 2 fun _ : Unit => 2).stateAt inTime 8
    processed s = [(9, fun _ => some 1), (10, fun _ => some 1), (11, fun _ => some 2)] ∧
      processed s <+: simulate 2 (fun _ => 2) s.fills ∧ processed s = simulate 2 (fun _ => 2) s.fills := by
  have room : ∀ i : Unit, 0 < (fun _ => 2 : Unit → Nat) i := fun _ => Nat.two_pos
  have agree := modes_agree 2 room
    (Machine.stateAt_reachWhen (M := reality 2 fun _ : Unit => 2) inTime (by decide) rfl)
  exact ⟨by decide, agree.1, agree.2 (by decide)⟩

end Component

end CyberRT

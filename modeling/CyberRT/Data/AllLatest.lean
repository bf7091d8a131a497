import CyberRT.Data.ChannelDelivery
import Mathlib.Data.Fintype.Basic
import Mathlib.Data.Fintype.Pi

namespace CyberRT.AllLatest
open Concur
universe u

variable {ι : Type} {M0 : Type u} {M : ι → Type u}

/-- A message of the first channel with one of each other channel. The classes for two, three and four channels
differ in the number of others. -/
abbrev Fused (M0 : Type u) (M : ι → Type u) :=
  M0 × ((i : ι) → Option (M i))

inductive Fill (M0 : Type u) (M : ι → Type u)
  | first (m0 : M0)
  | other (i : ι) (m : M i)

inductive Event (M0 : Type u) (M : ι → Type u)
  | fill (msg : Fill M0 M)
  | fusion

/-- The buffers of the channels and the fusion buffer, which one visitor reads. `fills` has the fills since the
object was built. -/
structure State (M0 : Type u) (M : ι → Type u) where
  buffer0 : CacheBuffer M0
  others : (i : ι) → CacheBuffer (M i)
  reader : ChannelDelivery.State (Fused M0 M)
  fills : List (Fill M0 M)

/-- The constructor, for buffers that may have been filled before. -/
def new (buffer0 : CacheBuffer M0) (others : (i : ι) → CacheBuffer (M i)) : State M0 M :=
  ⟨buffer0, others, .new (buffer0.capacity - 1), []⟩

variable [Fintype ι] [DecidableEq ι]

/-- The tuple that the callback builds, unless `Latest` fails for one of the channels. -/
def fuse (others : (i : ι) → CacheBuffer (M i)) (m0 : M0) : Option (Fused M0 M) :=
  if ∀ i, (others i).latest.isSome then some (m0, fun i => (others i).latest.join) else none

/-- `Fill` of the first channel calls the callback and leaves the buffer of the channel as it is. The calls of `Latest` in
it, each under the lock of its channel, are one step with it. -/
def fill (s : State M0 M) (msg : Fill M0 M) : State M0 M :=
  let s := { s with fills := s.fills ++ [msg] }
  match msg with
  | .first m0 =>
    match fuse s.others m0 with
    | some data => { s with reader := s.reader.fill data }
    | none => s
  | .other i m => { s with others := Function.update s.others i ((s.others i).fill m) }

def machine (buffer0 : CacheBuffer M0) (others : (i : ι) → CacheBuffer (M i)) :
    Machine (State M0 M) (Event M0 M) where
  init := new buffer0 others
  step s
    | .fill msg => some (fill s msg)
    | .fusion => some { s with reader := s.reader.tryFetch }

/-- The newest message of each other channel after these fills, from the newest before them. -/
def latest (now : (i : ι) → Option (M i)) : List (Fill M0 M) → (i : ι) → Option (M i)
  | [] => now
  | .first _ :: fills => latest now fills
  | .other i m :: fills => latest (Function.update now i (some m)) fills

/-- What the fused buffer is to receive: one tuple for each message of the first channel that comes when every
other channel has had one. -/
def tuples (now : (i : ι) → Option (M i)) : List (Fill M0 M) → List (Fused M0 M)
  | [] => []
  | .first m0 :: fills => (if ∀ i, (now i).isSome then [(m0, now)] else []) ++ tuples now fills
  | .other i m :: fills => tuples (Function.update now i (some m)) fills

omit [Fintype ι] in
theorem latest_append (now : (i : ι) → Option (M i)) (fills rest : List (Fill M0 M)) :
    latest now (fills ++ rest) = latest (latest now fills) rest := by
  induction fills generalizing now with
  | nil => rfl
  | cons msg fills ih =>
    cases msg with
    | first m0 => exact ih now
    | other i m => exact ih _

theorem tuples_append (now : (i : ι) → Option (M i)) (fills rest : List (Fill M0 M)) :
    tuples now (fills ++ rest) = tuples now fills ++ tuples (latest now fills) rest := by
  induction fills generalizing now with
  | nil => rfl
  | cons msg fills ih =>
    cases msg with
    | first m0 =>
      simp only [List.cons_append, tuples, latest, ih, List.append_assoc]
    | other i m => exact ih _

/-- `before` has the messages that the other channels have had when the object is built. -/
structure Inv (queueSize : Nat) (queueSizes : ι → Nat) (before : (i : ι) → List (M i)) (s : State M0 M) : Prop where
  others : ∀ i, ∃ filled, (s.others i).Holds (queueSizes i) filled ∧
    filled.getLast? = latest (fun i => (before i).getLast?) s.fills i
  filled : s.reader.filled = tuples (fun i => (before i).getLast?) s.fills
  reader : ChannelDelivery.Inv queueSize s.reader

variable {queueSize : Nat} {queueSizes : ι → Nat} {before : (i : ι) → List (M i)} {s : State M0 M}

theorem Inv.latest_eq (inv : Inv queueSize queueSizes before s) (i : ι) :
    (s.others i).latest = (latest (fun i => (before i).getLast?) s.fills i).map some := by
  obtain ⟨filled, holds, last⟩ := inv.others i
  rw [holds.latest_eq, last]

/-- The callback reads the newest message of each other channel. -/
theorem Inv.fuse_eq (inv : Inv queueSize queueSizes before s) (m0 : M0) :
    (fuse s.others m0).toList =
      tuples (latest (fun i => (before i).getLast?) s.fills) [.first m0] := by
  unfold fuse
  simp only [inv.latest_eq, Option.isSome_map, tuples, List.append_nil]
  split
  · simp only [Option.toList_some]
    congr
    funext i
    cases latest (fun i => (before i).getLast?) s.fills i <;> rfl
  · rfl

theorem Inv.fill (inv : Inv queueSize queueSizes before s) (msg : Fill M0 M) :
    Inv queueSize queueSizes before (fill s msg) := by
  cases msg with
  | first m0 =>
    have fused := inv.fuse_eq m0
    have same : ∀ i, latest (fun i => (before i).getLast?) (s.fills ++ [.first m0]) i =
        latest (fun i => (before i).getLast?) s.fills i := by
      intro i
      rw [latest_append]
      rfl
    unfold AllLatest.fill
    simp only
    split
    · rename_i data built
      rw [built] at fused
      refine ⟨fun i => ?_, ?_, inv.reader.fill data⟩
      · rw [same]
        exact inv.others i
      · rw [tuples_append, ← fused, ← inv.filled]
        rfl
    · rename_i missing
      rw [missing] at fused
      refine ⟨fun i => ?_, ?_, inv.reader⟩
      · rw [same]
        exact inv.others i
      · rw [tuples_append, ← fused, ← inv.filled]
        simp
  | other i m =>
    refine ⟨fun j => ?_, ?_, inv.reader⟩
    · obtain ⟨filled, holds, last⟩ := inv.others j
      by_cases own : j = i
      · subst own
        refine ⟨filled ++ [m], ?_, ?_⟩
        · simpa [AllLatest.fill] using holds.fill m
        · simp [AllLatest.fill, latest_append, latest]
      · refine ⟨filled, ?_, ?_⟩
        · simpa [AllLatest.fill, own] using holds
        · simpa [AllLatest.fill, latest_append, latest, own] using last
    · have nothing : tuples (latest (fun i => (before i).getLast?) s.fills) [Fill.other i m] =
          ([] : List (Fused M0 M)) := rfl
      rw [AllLatest.fill, tuples_append, nothing, List.append_nil]
      exact inv.filled

theorem inv_new (queueSize : Nat) (queueSizes : ι → Nat) (before0 : List M0)
    (before : (i : ι) → List (M i)) :
    Inv queueSize queueSizes before
      (new (.filledWith queueSize before0) fun i => .filledWith (queueSizes i) (before i)) where
  others i := ⟨before i, CacheBuffer.holds_filledWith _ _, rfl⟩
  filled := rfl
  reader := by
    have capacity := (CacheBuffer.holds_filledWith queueSize before0).capacity
    rw [new, capacity, Nat.add_sub_cancel]
    exact ChannelDelivery.inv_new queueSize

theorem inv_reach {before0 : List M0}
    (reach : (machine (.filledWith queueSize before0) fun i => .filledWith (queueSizes i) (before i)).Reach s) :
    Inv queueSize queueSizes before s := by
  refine reach.invariant (inv_new queueSize queueSizes before0 before) fun s e s' inv step => ?_
  cases e with
  | fill msg =>
    cases step
    exact inv.fill msg
  | fusion =>
    cases step
    refine ⟨inv.others, ?_, inv.reader.tryFetch⟩
    rw [ChannelDelivery.tryFetch_filled]
    exact inv.filled

/-- For every message of the first channel that comes when each other channel has had one, the fused buffer
receives one tuple with the newest of them, and nothing else; and the visitor gets the tuples as a reader gets the
messages of a channel. -/
theorem fusion_exact {before0 : List M0}
    (reach : (machine (.filledWith queueSize before0) fun i => .filledWith (queueSizes i) (before i)).Reach s) :
    s.reader.filled = tuples (fun i => (before i).getLast?) s.fills ∧
      ChannelDelivery.Delivers queueSize s.reader := by
  have inv := inv_reach reach
  exact ⟨inv.filled, inv.reader.delivers⟩

/-- Two channels with queues of ten. -/
def twoChannels : Machine (State Nat fun _ : Fin 1 => Nat) (Event Nat fun _ : Fin 1 => Nat) :=
  machine (.filledWith 10 []) fun _ => .filledWith 10 []

def twoTuples : List (Event Nat fun _ : Fin 1 => Nat) :=
  [.fill (.first 9), .fill (.other 0 1), .fill (.first 10), .fill (.first 11), .fusion, .fill (.first 12), .fusion]

theorem twoTuples_exact :
    let s := twoChannels.stateAt twoTuples 7
    s.reader.filled = [(10, fun _ => some 1), (11, fun _ => some 1), (12, fun _ => some 1)] ∧
      s.reader.filled = tuples (fun _ => none) s.fills ∧ ChannelDelivery.Delivers 10 s.reader := by
  have exact := fusion_exact (Machine.stateAt_reach (M := twoChannels) twoTuples rfl)
  exact ⟨by decide, exact.1, exact.2⟩

/-- The first call takes the newest tuple and skips one that is still in the ring. -/
theorem firstFusion_skips :
    let s := twoChannels.stateAt (twoTuples.take 5) 5
    twoChannels.Reach s ∧ s.reader.fetched = [(2, some (11, fun _ => some 1))] ∧
      s.reader.visitor.buffer.get 1 = some (10, fun _ => some 1) ∧ s.reader.visitor.buffer.getHead = 1 :=
  ⟨Machine.stateAt_reach _ rfl, by decide, by decide, by decide⟩

end CyberRT.AllLatest

import CyberRT.Base.ObjectPool
import Mathlib.Data.List.Nodup

namespace CyberRT.ObjectPool
open Concur

/-- The free list: what following `next` from `free_head_` visits. -/
def Free (p : ObjectPool) (xs : List Nat) : Prop :=
  Linked p.next p.freeHead.node xs

/-- The free list ends, and together with the held objects it stays inside the arena without
repetition. -/
structure Inv (p : ObjectPool) : Prop where
  list : ∃ xs, p.Free xs
  free_lt : ∀ xs, p.Free xs → ∀ n ∈ xs, n < p.capacity
  held_lt : ∀ n ∈ p.held, n < p.capacity
  held_nodup : p.held.Nodup
  apart : ∀ xs, p.Free xs → ∀ n ∈ xs, n ∉ p.held

/-- A node in the hands of an operation is in the arena and nowhere else. -/
structure Carried (p : ObjectPool) (n : Nat) : Prop where
  lt : n < p.capacity
  not_free : ∀ xs, p.Free xs → n ∉ xs
  not_held : n ∉ p.held

/-- A head that was loaded is the current one as long as the counter has not moved. This is what
the counter is for: the node alone could have left the list and come back. -/
def Seen (p : ObjectPool) (oldHead : PoolHead) : Prop :=
  oldHead.count ≤ p.freeHead.count ∧ (oldHead.count = p.freeHead.count → oldHead = p.freeHead)

/-- What a thread knows at each of its program points beyond the node it carries. -/
def Knows (p : ObjectPool) : Local → Prop
  | .getNext _ oldHead => p.Seen oldHead
  | .getCas _ count node newNode => p.Seen ⟨count, some node⟩ ∧
    (count = p.freeHead.count → p.next node = newNode)
  | .releaseStore _ oldHead => p.Seen oldHead
  | .releaseCas node oldHead => p.Seen oldHead ∧ p.next node = oldHead.node
  | _ => True

structure At (p : ObjectPool) (l : Local) : Prop where
  carried : ∀ n, l.transit? = some n → p.Carried n
  knows : p.Knows l

/-- Two operations never carry the same node. -/
def Apart (l m : Local) : Prop :=
  ∀ n, l.transit? = some n → m.transit? = some n → False

theorem seen_freeHead (p : ObjectPool) : p.Seen p.freeHead :=
  ⟨le_rfl, fun _ => rfl⟩

theorem sub_one_toNat (size : UInt32) : (size - 1).toNat = (size.toNat + (2 ^ 32 - 1)) % 2 ^ 32 := by
  rw [UInt32.toNat_sub, Nat.add_comm]
  rfl

/-- Only a pool with an arena is constructed, and its nodes are linked in the order of the arena. -/
theorem create_some {size : UInt32} {p : ObjectPool} (made : create size = some p) :
    0 < size.toNat ∧ p.capacity = size.toNat ∧ p.held = [] ∧ p.freeHead.node = some 0 ∧
      ∀ k, p.next k = if k + 1 < size.toNat then some (k + 1) else none := by
  unfold create at made
  split at made
  · rename_i within
    have last := sub_one_toNat size
    have bounded := size.toNat_lt
    have below := UInt32.lt_iff_toNat_lt.mp within
    have positive : 0 < size.toNat := by omega
    have exact : (size - 1).toNat = size.toNat - 1 := by omega
    cases made
    refine ⟨positive, rfl, rfl, rfl, fun k => ?_⟩
    dsimp only
    rw [exact]
    exact if_congr (by omega) rfl rfl
  · cases made

/-- The constructor of a pool links its whole arena. -/
theorem create_linked {size : UInt32} {p : ObjectPool} (made : create size = some p) {rest k : Nat}
    (within : k + (rest + 1) = size.toNat) : Linked p.next (some k) (List.range' k (rest + 1)) := by
  obtain ⟨_, _, _, _, next⟩ := create_some made
  induction rest generalizing k with
  | zero =>
    refine .cons ?_
    rw [next, if_neg (by omega)]
    exact .nil
  | succ rest ih =>
    refine .cons ?_
    rw [next, if_pos (by omega)]
    exact ih (by omega)

theorem create_free {size : UInt32} {p : ObjectPool} (made : create size = some p) :
    p.Free (List.range size.toNat) := by
  obtain ⟨positive, _, _, top, _⟩ := create_some made
  obtain ⟨rest, same⟩ := Nat.exists_eq_succ_of_ne_zero positive.ne'
  rw [Free, top, same, List.range_eq_range']
  exact create_linked made (by omega)

theorem inv_create {size : UInt32} {p : ObjectPool} (made : create size = some p) : Inv p where
  list := ⟨_, create_free made⟩
  free_lt xs free n member := by
    rw [free.unique (create_free made)] at member
    rw [(create_some made).2.1]
    exact List.mem_range.mp member
  held_lt n member := by
    rw [(create_some made).2.2.1] at member
    cases member
  held_nodup := by
    rw [(create_some made).2.2.1]
    exact List.nodup_nil
  apart xs free n _ member := by
    rw [(create_some made).2.2.1] at member
    cases member

section Pop
variable {p : ObjectPool} {count node : Nat} {newNode : Option Nat}

/-- The free list after a node is taken. -/
theorem pop_free (top : p.freeHead = ⟨count, some node⟩) (current : p.next node = newNode) {xs : List Nat} :
    Free { p with freeHead := ⟨count + 1, newNode⟩ } xs ↔ p.Free (node :: xs) := by
  simp only [Free, top, ← current]
  constructor
  · exact .cons
  · intro linked
    obtain ⟨tail, same, rest⟩ := linked.cons_inv
    cases same
    exact rest

theorem Inv.pop (inv : Inv p) (top : p.freeHead = ⟨count, some node⟩) (current : p.next node = newNode) :
    Inv { p with freeHead := ⟨count + 1, newNode⟩ } where
  list := by
    obtain ⟨xs, free⟩ := inv.list
    obtain ⟨tail, rfl, _⟩ : ∃ tail, xs = node :: tail ∧ Linked p.next (p.next node) tail := by
      rw [Free, top] at free
      exact free.cons_inv
    exact ⟨tail, (pop_free top current).mpr free⟩
  free_lt xs free n member := inv.free_lt _ ((pop_free top current).mp free) n (List.mem_cons_of_mem _ member)
  held_lt := inv.held_lt
  held_nodup := inv.held_nodup
  apart xs free n member := inv.apart _ ((pop_free top current).mp free) n (List.mem_cons_of_mem _ member)

theorem Inv.pop_carried (inv : Inv p) (top : p.freeHead = ⟨count, some node⟩) (current : p.next node = newNode) :
    Carried { p with freeHead := ⟨count + 1, newNode⟩ } node := by
  obtain ⟨_, free⟩ := (inv.pop top current).list
  have before := (pop_free top current).mp free
  refine ⟨inv.free_lt _ before node (List.mem_cons_self ..), fun _ free' => ?_,
    inv.apart _ before node (List.mem_cons_self ..)⟩
  rw [free'.unique free]
  exact (List.nodup_cons.mp before.nodup).1

theorem Carried.pop {n : Nat} (carried : Carried p n) (top : p.freeHead = ⟨count, some node⟩)
    (current : p.next node = newNode) : Carried { p with freeHead := ⟨count + 1, newNode⟩ } n :=
  ⟨carried.lt, fun _ free member => carried.not_free _ ((pop_free top current).mp free)
    (List.mem_cons_of_mem _ member), carried.not_held⟩

end Pop

section Push
variable {p : ObjectPool} {node : Nat}

/-- The free list after a node is put back. -/
theorem push_free (linked : p.next node = p.freeHead.node) {xs : List Nat} {count : Nat} :
    Free { p with freeHead := ⟨count, some node⟩ } xs ↔ ∃ tail, xs = node :: tail ∧ p.Free tail := by
  simp only [Free, ← linked]
  constructor
  · exact Linked.cons_inv
  · rintro ⟨tail, rfl, rest⟩
    exact .cons rest

theorem Inv.push (inv : Inv p) (carried : Carried p node) (linked : p.next node = p.freeHead.node) (count : Nat) :
    Inv { p with freeHead := ⟨count, some node⟩ } where
  list := by
    obtain ⟨xs, free⟩ := inv.list
    exact ⟨node :: xs, (push_free linked).mpr ⟨xs, rfl, free⟩⟩
  free_lt xs free n member := by
    obtain ⟨tail, rfl, rest⟩ := (push_free linked).mp free
    rcases List.mem_cons.mp member with rfl | inTail
    · exact carried.lt
    · exact inv.free_lt _ rest n inTail
  held_lt := inv.held_lt
  held_nodup := inv.held_nodup
  apart xs free n member := by
    obtain ⟨tail, rfl, rest⟩ := (push_free linked).mp free
    rcases List.mem_cons.mp member with rfl | inTail
    · exact carried.not_held
    · exact inv.apart _ rest n inTail

theorem Carried.push {n : Nat} (carried : Carried p n) (different : n ≠ node)
    (linked : p.next node = p.freeHead.node) (count : Nat) :
    Carried { p with freeHead := ⟨count, some node⟩ } n := by
  refine ⟨carried.lt, fun xs free member => ?_, carried.not_held⟩
  obtain ⟨tail, rfl, rest⟩ := (push_free linked).mp free
  rcases List.mem_cons.mp member with same | inTail
  · exact different same
  · exact carried.not_free _ rest inTail

end Push

section Link
variable {p : ObjectPool} {node : Nat} {value : Option Nat}

/-- Preparing a node that an operation carries does not touch the free list. -/
theorem link_free (inv : Inv p) (carried : Carried p node) {xs : List Nat} :
    Free { p with next := Function.update p.next node value } xs ↔ p.Free xs := by
  obtain ⟨ys, free⟩ := inv.list
  have after : Free { p with next := Function.update p.next node value } ys :=
    free.update (carried.not_free _ free)
  constructor
  · intro other
    rwa [other.unique after]
  · intro other
    rwa [other.unique free]

theorem Inv.link (inv : Inv p) (carried : Carried p node) :
    Inv { p with next := Function.update p.next node value } where
  list := by
    obtain ⟨xs, free⟩ := inv.list
    exact ⟨xs, (link_free inv carried).mpr free⟩
  free_lt xs free := inv.free_lt xs ((link_free inv carried).mp free)
  held_lt := inv.held_lt
  held_nodup := inv.held_nodup
  apart xs free := inv.apart xs ((link_free inv carried).mp free)

theorem Carried.link {n : Nat} (carried : Carried p n) (inv : Inv p) (mine : Carried p node) :
    Carried { p with next := Function.update p.next node value } n :=
  ⟨carried.lt, fun xs free => carried.not_free xs ((link_free inv mine).mp free), carried.not_held⟩

end Link

theorem Inv.hold {p : ObjectPool} {node : Nat} (inv : Inv p) (carried : Carried p node) :
    Inv { p with held := node :: p.held } where
  list := inv.list
  free_lt := inv.free_lt
  held_lt := by
    intro n member
    rcases List.mem_cons.mp member with rfl | old
    · exact carried.lt
    · exact inv.held_lt n old
  held_nodup := List.nodup_cons.mpr ⟨carried.not_held, inv.held_nodup⟩
  apart := by
    intro xs free n member inHeld
    rcases List.mem_cons.mp inHeld with rfl | old
    · exact carried.not_free xs free member
    · exact inv.apart xs free n member old

theorem Inv.releaseObject {p : ObjectPool} (inv : Inv p) (node : Nat) :
    Inv { p with held := p.held.erase node } where
  list := inv.list
  free_lt := inv.free_lt
  held_lt n member := inv.held_lt n (List.mem_of_mem_erase member)
  held_nodup := inv.held_nodup.erase node
  apart xs free n member inHeld := inv.apart xs free n member (List.mem_of_mem_erase inHeld)

end CyberRT.ObjectPool

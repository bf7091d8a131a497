import CyberRT.Lib.Threads
import CyberRT.Lib.LinkedList

namespace CyberRT
open Concur

/-- The value of `free_head_`: a counter that every successful exchange increments, and the first
free node. The counter does not wrap within one operation, so it is a natural number. -/
structure PoolHead where
  count : Nat
  node : Option Nat
deriving DecidableEq, Repr

/-- `CCObjectPool`: nodes are named by their index from `node_arena_`, so the arena is the indexes
below `capacity`. `held` are the objects in the hands of callers, one entry for each
`shared_ptr` that was returned and not yet released. -/
structure ObjectPool where
  freeHead : PoolHead
  next : Nat → Option Nat
  capacity : Nat
  held : List Nat

namespace ObjectPool

/-- The constructor. The loop links node `i` to node `i + 1` for every `i` below `capacity_ - 1`, a 32-bit number. For
size zero that number is the largest one: the loop writes behind the empty arena, and no pool comes out of it. -/
def create (size : UInt32) : Option ObjectPool :=
  if size - 1 < size then
    some {
      freeHead := ⟨0, some 0⟩
      next := fun i => if i < (size - 1).toNat then some (i + 1) else none
      capacity := size.toNat
      held := []
    }
  else none

/-- Where a thread stands. `construct` tells `ConstructObject`, which runs the constructor of `T` on
the node it took, from `GetObject`. -/
inductive Local
  | idle
  | getLoad (construct : Bool)
  | getNext (construct : Bool) (oldHead : PoolHead)
  | getCas (construct : Bool) (count node : Nat) (newNode : Option Nat)
  | getConstruct (node : Nat)
  | getReturn (result : Option Nat)
  | releaseLoad (node : Nat)
  | releaseStore (node : Nat) (oldHead : PoolHead)
  | releaseCas (node : Nat) (oldHead : PoolHead)
deriving DecidableEq, Repr

inductive Choice
  | getObject
  | constructObject
  | releaseObject (node : Nat)
  | run (spurious : Bool)
  | throw
deriving DecidableEq, Repr

/-- One atomic access of `FindFreeHead`, `GetObject`, `ConstructObject` or `ReleaseObject`. A caller
releases an object it holds, through the deleter of its pointer. An exception of the constructor
of `T` leaves `ConstructObject` at once. -/
def act (p : ObjectPool) : Local → Choice → Option (ObjectPool × Local)
  | .idle, .getObject => some (p, .getLoad false)
  | .idle, .constructObject => some (p, .getLoad true)
  | .idle, .releaseObject node =>
    if node ∈ p.held then some ({ p with held := p.held.erase node }, .releaseLoad node) else none
  | .getLoad construct, .run _ => some (p, .getNext construct p.freeHead)
  | .getNext construct oldHead, .run _ =>
    match oldHead.node with
    | none => some (p, .getReturn none)
    | some node => some (p, .getCas construct oldHead.count node (p.next node))
  | .getCas construct count node newNode, .run spurious =>
    if p.freeHead = ⟨count, some node⟩ ∧ spurious = false then
      some ({ p with freeHead := ⟨count + 1, newNode⟩ },
        if construct then .getConstruct node else .getReturn (some node))
    else some (p, .getNext construct p.freeHead)
  | .getConstruct node, .run _ => some (p, .getReturn (some node))
  | .getConstruct _, .throw => some (p, .idle)
  | .getReturn none, .run _ => some (p, .idle)
  | .getReturn (some node), .run _ => some ({ p with held := node :: p.held }, .idle)
  | .releaseLoad node, .run _ => some (p, .releaseStore node p.freeHead)
  | .releaseStore node oldHead, .run _ =>
    some ({ p with next := Function.update p.next node oldHead.node }, .releaseCas node oldHead)
  | .releaseCas node oldHead, .run spurious =>
    if p.freeHead = oldHead ∧ spurious = false then
      some ({ p with freeHead := ⟨oldHead.count + 1, some node⟩ }, .idle)
    else some (p, .releaseStore node p.freeHead)
  | _, _ => none

/-- The threads on a pool that was constructed. -/
def machine (τ : Type) [DecidableEq τ] (p : ObjectPool) : Machine (Config τ ObjectPool Local) (τ × Choice) :=
  Config.machine p (fun _ => .idle) act

/-- The node that an operation carries: taken from the free list and not yet in the caller's
hands, or given back and not yet on the free list. -/
def Local.transit? : Local → Option Nat
  | .getConstruct node => some node
  | .getReturn result => result
  | .releaseLoad node => some node
  | .releaseStore node _ => some node
  | .releaseCas node _ => some node
  | _ => none

/-- Every way a thread can move, with the guard of the branch it takes. -/
inductive Act (p : ObjectPool) : Local → Choice → ObjectPool → Local → Prop
  | getObject : Act p .idle .getObject p (.getLoad false)
  | constructObject : Act p .idle .constructObject p (.getLoad true)
  | releaseObject (node) : node ∈ p.held →
      Act p .idle (.releaseObject node) { p with held := p.held.erase node } (.releaseLoad node)
  | load (construct spurious) : Act p (.getLoad construct) (.run spurious) p (.getNext construct p.freeHead)
  | empty (construct count spurious) :
      Act p (.getNext construct ⟨count, none⟩) (.run spurious) p (.getReturn none)
  | readNext (construct count node spurious) : Act p (.getNext construct ⟨count, some node⟩) (.run spurious) p
      (.getCas construct count node (p.next node))
  | pop (construct count node newNode) : p.freeHead = ⟨count, some node⟩ →
      Act p (.getCas construct count node newNode) (.run false) { p with freeHead := ⟨count + 1, newNode⟩ }
        (if construct then .getConstruct node else .getReturn (some node))
  | retryPop (construct count node newNode spurious) : Act p (.getCas construct count node newNode)
      (.run spurious) p (.getNext construct p.freeHead)
  | construct (node spurious) : Act p (.getConstruct node) (.run spurious) p (.getReturn (some node))
  | throw (node) : Act p (.getConstruct node) .throw p .idle
  | returnNull (spurious) : Act p (.getReturn none) (.run spurious) p .idle
  | hold (node spurious) : Act p (.getReturn (some node)) (.run spurious) { p with held := node :: p.held } .idle
  | loadTop (node spurious) : Act p (.releaseLoad node) (.run spurious) p (.releaseStore node p.freeHead)
  | link (node oldHead spurious) : Act p (.releaseStore node oldHead) (.run spurious)
      { p with next := Function.update p.next node oldHead.node } (.releaseCas node oldHead)
  | push (node) : Act p (.releaseCas node p.freeHead) (.run false)
      { p with freeHead := ⟨p.freeHead.count + 1, some node⟩ } .idle
  | retryPush (node oldHead spurious) : Act p (.releaseCas node oldHead) (.run spurious) p
      (.releaseStore node p.freeHead)

theorem act_cases {p p' : ObjectPool} {l l' : Local} {c : Choice} (step : act p l c = some (p', l')) :
    Act p l c p' l' := by
  cases l <;> cases c <;> simp only [act, reduceCtorEq, Option.some.injEq, Prod.mk.injEq] at step
  case idle.getObject => obtain ⟨rfl, rfl⟩ := step; exact .getObject
  case idle.constructObject => obtain ⟨rfl, rfl⟩ := step; exact .constructObject
  case idle.releaseObject node =>
    split at step <;> cases step
    exact .releaseObject _ (by assumption)
  case getLoad.run => obtain ⟨rfl, rfl⟩ := step; exact .load _ _
  case getNext.run construct oldHead spurious =>
    obtain ⟨count, node⟩ := oldHead
    cases node <;> cases step
    · exact .empty _ _ _
    · exact .readNext _ _ _ _
  case getCas.run construct count node newNode spurious =>
    split at step <;> cases step
    · rename_i same
      obtain ⟨same, rfl⟩ := same
      exact .pop _ _ _ _ same
    · exact .retryPop _ _ _ _ _
  case getConstruct.run => obtain ⟨rfl, rfl⟩ := step; exact .construct _ _
  case getConstruct.throw => obtain ⟨rfl, rfl⟩ := step; exact .throw _
  case getReturn.run result spurious =>
    cases result <;> cases step
    · exact .returnNull _
    · exact .hold _ _
  case releaseLoad.run => obtain ⟨rfl, rfl⟩ := step; exact .loadTop _ _
  case releaseStore.run => obtain ⟨rfl, rfl⟩ := step; exact .link _ _ _
  case releaseCas.run node oldHead spurious =>
    split at step <;> cases step
    · rename_i same
      obtain ⟨rfl, rfl⟩ := same
      exact .push _
    · exact .retryPush _ _ _

end ObjectPool

end CyberRT

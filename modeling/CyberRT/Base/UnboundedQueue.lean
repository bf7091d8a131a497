import CyberRT.Lib.Threads
import Mathlib.Data.List.Basic

namespace CyberRT
open Concur
universe u

namespace UnboundedQueue

/-- The two calls that release a node: the `Enqueue` that has replaced it as the tail, and the `Dequeue` that has
replaced it as the head. -/
inductive Role
  | enqueue
  | dequeue
  deriving DecidableEq

/-- The next access of a thread, with its pointers. `slot` is the place in the order of the exchanges of `head_`. -/
inductive Pc
  | idle
  | loadTail (node : Nat)
  | casTail (node oldTail : Nat)
  | writeNext (node oldTail : Nat)
  | sizeAdd
  | readNext (oldHead : Nat)
  | casHead (oldHead headNext : Nat)
  | readData (oldHead headNext slot : Nat)
  | sizeSub (oldHead : Nat)
  | fetchSub (role : Role) (node : Nat)
  | loadCount (role : Role) (node : Nat)
  | delete (role : Role) (node : Nat)
  deriving DecidableEq

end UnboundedQueue

/-- The queue over a heap of nodes. A node is named by its number in the order of allocation; two nodes may have the
same address if one of them is deleted. What the code does not have: the elements in the order of the exchanges of
`tail_`, what was dequeued in the order of the exchanges of `head_` (a place that has yet to be read is empty), the
place of each node in the first order, who has released it, how often it was deleted, and whether a node was used after
it was deleted. -/
structure UnboundedQueue (α : Type u) where
  addr : Nat → Nat
  data : Nat → α
  refCount : Nat → Nat
  next : Nat → Option Nat
  allocated : Nat
  head : Nat
  tail : Nat
  size : Nat
  enqueued : List α
  dequeued : List (Option α)
  position : Nat → Option Nat
  released : Nat → UnboundedQueue.Role → Bool
  deleted : Nat → Nat
  usedDeleted : Bool

namespace UnboundedQueue

inductive Choice (α : Type u)
  | enqueue (element : α) (addr : Nat)
  | dequeue
  | next

variable {α : Type u}

/-- The constructor: one node, which holds no element. -/
def init [Inhabited α] : UnboundedQueue α where
  addr _ := 0
  data _ := default
  refCount _ := 2
  next _ := none
  allocated := 1
  head := 0
  tail := 0
  size := 0
  enqueued := []
  dequeued := []
  position := Function.update (fun _ => none) 0 (some 0)
  released _ _ := false
  deleted _ := 0
  usedDeleted := false

/-- No node that is not deleted has the address. -/
def Free (q : UnboundedQueue α) (addr : Nat) : Prop :=
  ∀ n < q.allocated, q.deleted n = 0 → q.addr n ≠ addr

instance (q : UnboundedQueue α) (addr : Nat) : Decidable (q.Free addr) :=
  inferInstanceAs (Decidable (∀ n < q.allocated, _))

/-- `new Node()`, and the write of its data. -/
def newNode (q : UnboundedQueue α) (element : α) (addr : Nat) : UnboundedQueue α :=
  { q with
    addr := Function.update q.addr q.allocated addr
    data := Function.update q.data q.allocated element
    refCount := Function.update q.refCount q.allocated 2
    next := Function.update q.next q.allocated none
    allocated := q.allocated + 1 }

/-- A node is read or written. -/
def use (q : UnboundedQueue α) (n : Nat) : UnboundedQueue α :=
  { q with usedDeleted := q.usedDeleted || q.deleted n != 0 }

/-- The exchange of `tail_`. -/
def exchangeTail (q : UnboundedQueue α) (node : Nat) : UnboundedQueue α :=
  { q with
    tail := node
    enqueued := q.enqueued ++ [q.data node]
    position := Function.update q.position node (some (q.enqueued.length + 1)) }

/-- The exchange of `head_`. -/
def exchangeHead (q : UnboundedQueue α) (headNext : Nat) : UnboundedQueue α :=
  { q with head := headNext, dequeued := q.dequeued ++ [none] }

/-- `ref_count.fetch_sub(1)` -/
def fetchSub (q : UnboundedQueue α) (role : Role) (n : Nat) : UnboundedQueue α :=
  { q with
    refCount := Function.update q.refCount n ((q.refCount n + (2 ^ 32 - 1)) % 2 ^ 32)
    released := Function.update q.released n (Function.update (q.released n) role true) }

/-- What follows `release`. -/
def Role.rest : Role → Pc
  | .enqueue => .sizeAdd
  | .dequeue => .idle

/-- One access of `Enqueue`, `Dequeue` or `Node::release`. Exchanges compare addresses. -/
def act (q : UnboundedQueue α) (pc : Pc) : Choice α → Option (UnboundedQueue α × Pc)
  | .enqueue element addr =>
    match pc with
    | .idle => if q.Free addr then some (q.newNode element addr, .loadTail q.allocated) else none
    | _ => none
  | .dequeue =>
    match pc with
    | .idle => some (q, .readNext q.head)
    | _ => none
  | .next =>
    match pc with
    | .idle => none
    | .loadTail node => some (q, .casTail node q.tail)
    | .casTail node oldTail =>
      -- the node at the address of `old_tail` is the tail, whichever it was before
      if q.addr q.tail = q.addr oldTail then some (q.exchangeTail node, .writeNext node q.tail)
      else some (q, .casTail node q.tail)
    | .writeNext node oldTail =>
      some ({ q.use oldTail with next := Function.update q.next oldTail (some node) }, .fetchSub .enqueue oldTail)
    | .sizeAdd => some ({ q with size := (q.size + 1) % 2 ^ 64 }, .idle)
    | .readNext oldHead =>
      match q.next oldHead with
      | none => some (q.use oldHead, .idle)
      | some headNext => some (q.use oldHead, .casHead oldHead headNext)
    | .casHead oldHead headNext =>
      if q.addr q.head = q.addr oldHead then
        some (q.exchangeHead headNext, .readData q.head headNext q.dequeued.length)
      else some (q, .readNext q.head)
    | .readData oldHead headNext slot =>
      some ({ q.use headNext with dequeued := q.dequeued.set slot (some (q.data headNext)) }, .sizeSub oldHead)
    | .sizeSub oldHead => some ({ q with size := (q.size + (2 ^ 64 - 1)) % 2 ^ 64 }, .fetchSub .dequeue oldHead)
    | .fetchSub role n => some ((q.use n).fetchSub role n, .loadCount role n)
    | .loadCount role n => some (q.use n, if q.refCount n = 0 then .delete role n else role.rest)
    | .delete role n => some ({ q with deleted := Function.update q.deleted n (q.deleted n + 1) }, role.rest)

/-- Any number of threads over one queue. -/
def machine (τ : Type*) [DecidableEq τ] (α : Type u) [Inhabited α] :
    Machine (Config τ (UnboundedQueue α) Pc) (τ × Choice α) :=
  Config.machine .init (fun _ => .idle) act

end UnboundedQueue

end CyberRT

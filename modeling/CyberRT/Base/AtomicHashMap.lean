import CyberRT.Lib.SortedChain
import CyberRT.Lib.Threads
import Mathlib.Algebra.Group.Int.Defs

namespace CyberRT
open Concur
universe u

namespace AtomicHashMap

/-- The calls of a map, with the key of any integral type as the integer it stands for. -/
inductive Call (V : Type u)
  | has (key : Int)
  | get (key : Int)
  | set (key : Int) (value : V)
  deriving DecidableEq

inductive Result (V : Type u)
  | found (res : Bool)
  | value (res : Option V)
  | done
  deriving DecidableEq

namespace Call
variable {V : Type u}

/-- What a call gives on a map that no other thread uses. -/
def result (map : Int → Option V) : Call V → Result V
  | .has key => .found (map key).isSome
  | .get key => .value (map key)
  | .set _ _ => .done

/-- The key and the value that a call installs. -/
def effect : Call V → Option (Int × V)
  | .set key value => some (key, value)
  | _ => none

end Call

/-- The map after a list of installations. -/
def content {V : Type u} (installs : List (Int × V)) : Int → Option V :=
  installs.foldl (fun map install => Function.update map install.1 (some install.2)) fun _ => none

/-- A call that has returned: how many calls had returned and how many values were installed when it began, where it
stands among the installations, and how many there were when it returned. -/
structure Returned (V : Type u) where
  call : Call V
  result : Result V
  began : Nat
  first : Nat
  point : Nat
  last : Nat
  deriving DecidableEq

/-- The parameters and the variables of `Insert` that live through its loop. -/
structure Insert (V : Type u) where
  key : Int
  value : V
  newEntry : Option Nat
  newValue : Option Nat
  deriving DecidableEq

/-- The caller of `Find`. -/
inductive Finder (V : Type u)
  | get (key : Int)
  | insert (i : Insert V)
  deriving DecidableEq

def Finder.key {V : Type u} : Finder V → Int
  | .get key => key
  | .insert i => i.key

/-- The next access of a thread, with its pointers. As `prev`, `none` is `head_`; as `target`, the null pointer. -/
inductive Pc (V : Type u)
  | idle
  | has (key : Int) (prev : Option Nat)
  | find (op : Finder V) (prev : Option Nat)
  | getValue (key : Int) (target : Nat)
  | loadValue (i : Insert V) (target : Nat)
  | casValue (i : Insert V) (target oldValPtr newValue : Nat)
  | newEntry (i : Insert V) (prev target : Option Nat)
  | storeNext (i : Insert V) (prev target : Option Nat) (newEntry : Nat)
  | casNext (i : Insert V) (prev target : Option Nat) (newEntry : Nat)
  | ret (call : Call V) (result : Result V) (point : Nat)
  deriving DecidableEq

/-- A thread, with the numbers of returned calls and of installed values when its call began. -/
structure Local (V : Type u) where
  pc : Pc V
  began : Nat
  first : Nat
  deriving DecidableEq

end AtomicHashMap

/-- The buckets over a heap of entries and of values, named by their numbers in the order of allocation: nothing is
reclaimed. `head b` is the `next` of the entry `head_` of bucket `b`. What the code does not have: the entries that were
linked into a bucket, the calls, the installed values in the order of the exchanges, and the calls that returned. -/
structure AtomicHashMap (V : Type u) where
  key : Nat → Int
  valuePtr : Nat → Nat
  next : Nat → Option Nat
  head : Nat → Option Nat
  value : Nat → V
  entries : Nat
  values : Nat
  linked : List Nat
  calls : List (AtomicHashMap.Call V)
  installs : List (Int × V)
  returned : List (AtomicHashMap.Returned V)

namespace AtomicHashMap
variable {V : Type u}

inductive Choice (V : Type u)
  | call (call : Call V)
  | setDefault (key : Int)
  | next

def init [Inhabited V] : AtomicHashMap V where
  key _ := 0
  valuePtr _ := 0
  next _ := none
  head _ := none
  value _ := default
  entries := 0
  values := 0
  linked := []
  calls := []
  installs := []
  returned := []

/-- `key & mode_num_`, with the key converted to `uint64_t`, in a table of size `2 ^ bits`. -/
def index (bits : Nat) (key : Int) : Nat :=
  (key % 2 ^ 64).toNat &&& (2 ^ bits - 1)

/-- `prev->next` in a bucket. -/
def pointer (m : AtomicHashMap V) (bucket : Nat) : Option Nat → Option Nat
  | none => m.head bucket
  | some e => m.next e

def setPointer (m : AtomicHashMap V) (bucket : Nat) (prev target : Option Nat) : AtomicHashMap V :=
  { m with
    head := prev.elim (Function.update m.head bucket target) fun _ => m.head
    next := prev.elim m.next fun e => Function.update m.next e target }

/-- `new V(value)` -/
def newValue (m : AtomicHashMap V) (value : V) : AtomicHashMap V :=
  { m with value := Function.update m.value m.values value, values := m.values + 1 }

/-- `new Entry(key, value)` -/
def newEntry (m : AtomicHashMap V) (key : Int) (value : V) : AtomicHashMap V :=
  { m.newValue value with
    key := Function.update m.key m.entries key
    valuePtr := Function.update m.valuePtr m.entries m.values
    next := Function.update m.next m.entries none
    entries := m.entries + 1 }

/-- `new_value`, allocated unless it was in an earlier turn of the loop. -/
def ensureValue (m : AtomicHashMap V) (i : Insert V) : AtomicHashMap V × Nat :=
  match i.newValue with
  | some p => (m, p)
  | none => (m.newValue i.value, m.values)

/-- The exchange of `value_ptr`. -/
def exchangeValue (m : AtomicHashMap V) (i : Insert V) (target newValue : Nat) : AtomicHashMap V :=
  { m with
    valuePtr := Function.update m.valuePtr target newValue
    installs := m.installs ++ [(i.key, i.value)] }

/-- The exchange of `prev->next`. -/
def exchangeNext (m : AtomicHashMap V) (bucket : Nat) (i : Insert V) (prev : Option Nat) (newEntry : Nat) :
    AtomicHashMap V :=
  { m.setPointer bucket prev (some newEntry) with
    linked := newEntry :: m.linked
    installs := m.installs ++ [(i.key, i.value)] }

/-- What follows `Find`. -/
def Finder.continues (m : AtomicHashMap V) (prev target : Option Nat) (found : Bool) : Finder V → Pc V
  | .get key =>
    match found, target with
    | true, some t => .getValue key t
    | _, _ => .ret (.get key) (.value none) m.installs.length
  | .insert i =>
    match found, target with
    | true, some t => .loadValue i t
    | _, _ =>
      match i.newEntry with
      | none => .newEntry i prev target
      | some n => .storeNext i prev target n

/-- The load of `prev->next` in `Find`, and what it leads to. -/
def find (m : AtomicHashMap V) (bits : Nat) (op : Finder V) (prev : Option Nat) : Pc V :=
  match m.pointer (index bits op.key) prev with
  | none => op.continues m prev none false
  | some t =>
    if m.key t = op.key then op.continues m prev (some t) true
    else if m.key t > op.key then op.continues m prev (some t) false
    else .find op (some t)

/-- The load of `target->next` in `Has`, and what it leads to. -/
def has (m : AtomicHashMap V) (bits : Nat) (key : Int) (prev : Option Nat) : Pc V :=
  match m.pointer (index bits key) prev with
  | none => .ret (.has key) (.found false) m.installs.length
  | some t =>
    if m.key t < key then .has key (some t)
    else .ret (.has key) (.found (m.key t = key)) m.installs.length

/-- A call begins. -/
def start (m : AtomicHashMap V) (call : Call V) : AtomicHashMap V × Local V :=
  let pc : Pc V :=
    match call with
    | .has key => .has key none
    | .get key => .find (.get key) none
    | .set key value => .find (.insert ⟨key, value, none, none⟩) none
  ({ m with calls := m.calls ++ [call] }, ⟨pc, m.returned.length, m.installs.length⟩)

/-- One access of `Has`, `Get` or `Set`, in a table of size `2 ^ bits`. -/
def act [Inhabited V] (bits : Nat) (m : AtomicHashMap V) (l : Local V) :
    Choice V → Option (AtomicHashMap V × Local V)
  | .call call =>
    match l.pc with
    | .idle => some (m.start call)
    | _ => none
  | .setDefault key =>
    match l.pc with
    | .idle => some (m.start (.set key default))
    | _ => none
  | .next =>
    match l.pc with
    | .idle => none
    | .has key prev => some (m, { l with pc := m.has bits key prev })
    | .find op prev => some (m, { l with pc := m.find bits op prev })
    | .getValue key target =>
      some (m, { l with pc := .ret (.get key) (.value (some (m.value (m.valuePtr target)))) m.installs.length })
    | .loadValue i target =>
      let (m', newValue) := m.ensureValue i
      some (m', { l with pc := .casValue i target (m.valuePtr target) newValue })
    | .casValue i target oldValPtr newValue =>
      if m.valuePtr target = oldValPtr then
        some (m.exchangeValue i target newValue, { l with pc := .ret (.set i.key i.value) .done m.installs.length })
      else some (m, { l with pc := .find (.insert { i with newValue := some newValue }) none })
    | .newEntry i prev target =>
      some (m.newEntry i.key i.value, { l with pc := .storeNext i prev target m.entries })
    | .storeNext i prev target newEntry =>
      some ({ m with next := Function.update m.next newEntry target }, { l with pc := .casNext i prev target newEntry })
    | .casNext i prev target newEntry =>
      if m.pointer (index bits i.key) prev = target then
        some (m.exchangeNext (index bits i.key) i prev newEntry,
          { l with pc := .ret (.set i.key i.value) .done m.installs.length })
      else some (m, { l with pc := .find (.insert { i with newEntry := some newEntry }) none })
    | .ret call result point =>
      some ({ m with returned := m.returned ++ [⟨call, result, l.began, l.first, point, m.installs.length⟩] },
        { l with pc := .idle })

/-- Any number of threads over one map. -/
def machine (τ : Type*) [DecidableEq τ] (V : Type u) [Inhabited V] (bits : Nat) :
    Machine (Config τ (AtomicHashMap V) (Local V)) (τ × Choice V) :=
  Config.machine .init (fun _ => ⟨.idle, 0, 0⟩) (act bits)

end AtomicHashMap

end CyberRT

import CyberRT.Base.AtomicHashMap
import Mathlib.Data.Int.Order.Basic
import Mathlib.Data.List.Induction

namespace CyberRT.AtomicHashMap
open Concur
universe u
variable {V : Type u} {bits : Nat}

theorem content_concat (installs : List (Int × V)) (install : Int × V) :
    content (installs ++ [install]) = Function.update (content installs) install.1 (some install.2) := by
  simp only [content, List.foldl_append, List.foldl_cons, List.foldl_nil]

/-- The value of a key is the one that was installed last. -/
theorem content_eq_some {installs : List (Int × V)} {k : Int} {v : V} (present : content installs k = some v) :
    ∃ p : Nat, installs[p]? = some (k, v) ∧ ∀ (q : Nat) v', installs[q]? = some (k, v') → q ≤ p := by
  induction installs using List.reverseRecOn with
  | nil => cases present
  | append_singleton installs install ih =>
    rw [content_concat] at present
    by_cases same : k = install.1
    · subst same
      rw [Function.update_self] at present
      obtain rfl := Option.some.inj present
      refine ⟨installs.length, List.getElem?_concat_length, fun q v' there => ?_⟩
      have within := (List.getElem?_eq_some_iff.mp there).1
      rw [List.length_append, List.length_singleton] at within
      omega
    · rw [Function.update_of_ne same] at present
      obtain ⟨p, here, latest⟩ := ih present
      have before := (List.getElem?_eq_some_iff.mp here).1
      refine ⟨p, (List.getElem?_append_left before).trans here, fun q v' there => ?_⟩
      by_cases old : q < installs.length
      · exact latest q v' ((List.getElem?_append_left old).symm.trans there)
      · have within := (List.getElem?_eq_some_iff.mp there).1
        rw [List.length_append, List.length_singleton] at within
        obtain rfl : q = installs.length := by omega
        cases List.getElem?_concat_length.symm.trans there
        exact absurd rfl same

theorem content_eq_none {installs : List (Int × V)} {k : Int} (absent : content installs k = none) (v : V) :
    (k, v) ∉ installs := by
  induction installs using List.reverseRecOn with
  | nil => exact List.not_mem_nil
  | append_singleton installs install ih =>
    rw [content_concat] at absent
    have other : k ≠ install.1 := by
      rintro rfl
      rw [Function.update_self] at absent
      cases absent
    rw [Function.update_of_ne other] at absent
    intro there
    rcases List.mem_append.mp there with old | last
    · exact ih absent old
    · cases List.mem_singleton.mp last
      exact other rfl

/-- A call stands at a point among the installations: it gives what it would on the map there, and installs its own
value there. -/
structure Valid (installs : List (Int × V)) (call : Call V) (result : Result V) (first point : Nat) : Prop where
  first_le : first ≤ point
  le : point ≤ installs.length
  gives : result = call.result (content (installs.take point))
  puts : ∀ install ∈ call.effect, installs[point]? = some install

/-- The place of the installation of a call at `point`. -/
def Call.mark (point : Nat) (call : Call V) : Option Nat :=
  call.effect.map fun _ => point

namespace Returned

def mark (r : Returned V) : Option Nat :=
  r.call.mark r.point

/-- A call stands at a point between its beginning and its end. -/
def Ok (installs : List (Int × V)) (r : Returned V) : Prop :=
  r.last ≤ installs.length ∧ Valid (installs.take r.last) r.call r.result r.first r.point

end Returned

/-- The calls that have returned are those of a map that is used by one call at a time. A call that had returned when
another one began stands before it, and no two stand at the same installation. -/
structure Linearized (m : AtomicHashMap V) : Prop where
  ok : ∀ r ∈ m.returned, r.Ok m.installs
  order : ∀ r ∈ m.returned, ∀ w ∈ m.returned.take r.began, w.last ≤ r.first
  once : (m.returned.filterMap Returned.mark).Nodup

/-- The key is in the list of its bucket. -/
def Contains (m : AtomicHashMap V) (bits : Nat) (key : Int) : Prop :=
  ∃ es, Linked m.next (m.head (index bits key)) es ∧ ∃ e ∈ es, m.key e = key

def InBucket (m : AtomicHashMap V) (bits bucket e : Nat) : Prop :=
  e ∈ m.linked ∧ index bits (m.key e) = bucket

structure Inv (bits : Nat) (m : AtomicHashMap V) : Prop where
  chain : ∀ bucket, SortedChain m.key (m.InBucket bits bucket) (m.pointer bucket)
  bound : ∀ e ∈ m.linked, e < m.entries ∧ m.valuePtr e < m.values
  present : ∀ e ∈ m.linked, content m.installs (m.key e) = some (m.value (m.valuePtr e))
  absent : ∀ k, (∀ e ∈ m.linked, m.key e ≠ k) → content m.installs k = none
  called : ∀ install ∈ m.installs, .set install.1 install.2 ∈ m.calls
  began : ∀ r ∈ m.returned, r.began ≤ m.returned.length
  linearized : m.Linearized

/-- A place in the bucket of `k`, below `k`. -/
def Place (m : AtomicHashMap V) (bits : Nat) (k : Int) (prev : Option Nat) : Prop :=
  ∀ e ∈ prev, m.InBucket bits (index bits k) e ∧ m.key e < k

/-- An allocated value. -/
def Holds (m : AtomicHashMap V) (p : Nat) (value : V) : Prop :=
  p < m.values ∧ m.value p = value

/-- An entry that only its thread knows. -/
structure Private (m : AtomicHashMap V) (i : Insert V) (n : Nat) : Prop where
  bound : n < m.entries
  unlinked : n ∉ m.linked
  key : m.key n = i.key
  value : m.Holds (m.valuePtr n) i.value

structure Own (m : AtomicHashMap V) (i : Insert V) : Prop where
  called : .set i.key i.value ∈ m.calls
  newValue : ∀ p ∈ i.newValue, m.Holds p i.value

def OwnEntry (m : AtomicHashMap V) (i : Insert V) : Prop :=
  ∀ n ∈ i.newEntry, m.Private i n

/-- The entry with the key of the call. -/
def Found (m : AtomicHashMap V) (k : Int) (target : Nat) : Prop :=
  target ∈ m.linked ∧ m.key target = k

/-- `prev` and `target`, between which a new entry is to stand. -/
def Between (m : AtomicHashMap V) (bits : Nat) (k : Int) (prev target : Option Nat) : Prop :=
  m.Place bits k prev ∧ ∀ t ∈ target, t ∈ m.linked ∧ k < m.key t

def Stands (m : AtomicHashMap V) (bits first : Nat) : Pc V → Prop
  | .idle => True
  | .has key prev => m.Place bits key prev
  | .find (.get key) prev => m.Place bits key prev
  | .find (.insert i) prev => m.Place bits i.key prev ∧ m.Own i ∧ m.OwnEntry i
  | .getValue key target => m.Found key target
  | .loadValue i target => m.Found i.key target ∧ m.Own i ∧ m.OwnEntry i
  | .casValue i target _ newValue => m.Found i.key target ∧ m.Own i ∧ m.OwnEntry i ∧ m.Holds newValue i.value
  | .newEntry i prev target => m.Between bits i.key prev target ∧ m.Own i
  | .storeNext i prev target newEntry => m.Between bits i.key prev target ∧ m.Own i ∧ m.Private i newEntry
  | .casNext i prev target newEntry =>
    m.Between bits i.key prev target ∧ m.Own i ∧ m.Private i newEntry ∧ m.next newEntry = target
  | .ret call result point =>
    Valid m.installs call result first point ∧
      ∀ r ∈ m.returned, ∀ p ∈ call.mark point, r.mark ≠ some p

structure At (bits : Nat) (m : AtomicHashMap V) (l : Local V) : Prop where
  began : l.began ≤ m.returned.length
  first : l.first ≤ m.installs.length
  before : ∀ w ∈ m.returned.take l.began, w.last ≤ l.first
  stands : m.Stands bits l.first l.pc

/-- The entry that only this thread knows. -/
def Pc.fresh : Pc V → Option Nat
  | .find (.insert i) _ | .loadValue i _ | .casValue i _ _ _ => i.newEntry
  | .storeNext _ _ _ n | .casNext _ _ _ n => some n
  | _ => none

/-- The place of the installation of a call that has yet to return. -/
def Pc.mark : Pc V → Option Nat
  | .ret call _ point => call.mark point
  | _ => none

structure Apart (l m : Local V) : Prop where
  fresh : ∀ n ∈ l.pc.fresh, m.pc.fresh ≠ some n
  mark : ∀ p ∈ l.pc.mark, m.pc.mark ≠ some p

theorem Apart.symm {l m : Local V} (apart : Apart l m) : Apart m l where
  fresh n theirs mine := apart.fresh n mine theirs
  mark p theirs mine := apart.mark p mine theirs

theorem Valid.mono {installs installs' : List (Int × V)} {call : Call V} {result : Result V} {first point : Nat}
    (valid : Valid installs call result first point) (grows : installs <+: installs') :
    Valid installs' call result first point := by
  obtain ⟨more, rfl⟩ := grows
  refine ⟨valid.first_le, valid.le.trans (by rw [List.length_append]; omega), ?_, fun install own => ?_⟩
  · rw [List.take_append_of_le_length valid.le]
    exact valid.gives
  · have here := valid.puts install own
    exact (List.getElem?_append_left (List.getElem?_eq_some_iff.mp here).1).trans here

theorem Returned.Ok.mono {installs installs' : List (Int × V)} {r : Returned V} (ok : r.Ok installs)
    (grows : installs <+: installs') : r.Ok installs' := by
  obtain ⟨more, rfl⟩ := grows
  refine ⟨ok.1.trans (by rw [List.length_append]; omega), ?_⟩
  rw [List.take_append_of_le_length ok.1]
  exact ok.2

/-- The installation of a call that has returned precedes its return. -/
theorem Returned.Ok.put {installs : List (Int × V)} {r : Returned V} (ok : r.Ok installs) {install : Int × V}
    (own : install ∈ r.call.effect) : r.point < r.last ∧ installs[r.point]? = some install := by
  have here := ok.2.puts install own
  have within := (List.getElem?_eq_some_iff.mp here).1
  have before : r.point < r.last := within.trans_le (List.length_take_le _ _)
  refine ⟨before, ?_⟩
  rwa [List.getElem?_take_of_lt before] at here

theorem Returned.Ok.bounds {installs : List (Int × V)} {r : Returned V} (ok : r.Ok installs) :
    r.first ≤ r.point ∧ r.point ≤ r.last :=
  ⟨ok.2.first_le, ok.2.le.trans (List.length_take_le _ _)⟩

theorem Returned.Ok.gives {installs : List (Int × V)} {r : Returned V} (ok : r.Ok installs) :
    r.result = r.call.result (content (installs.take r.point)) := by
  have gives := ok.2.gives
  rwa [List.take_take, min_eq_left ok.bounds.2] at gives

theorem Returned.Ok.mark_lt {installs : List (Int × V)} {r : Returned V} (ok : r.Ok installs) {p : Nat}
    (mark : r.mark = some p) : p < installs.length := by
  obtain ⟨install, own, rfl⟩ := Option.map_eq_some_iff.mp mark
  exact (ok.put own).1.trans_le ok.1

/-- What no step takes away. -/
structure Grows (m m' : AtomicHashMap V) : Prop where
  linked : ∀ e ∈ m.linked, e ∈ m'.linked
  entries : m.entries ≤ m'.entries
  key : ∀ e < m.entries, m'.key e = m.key e
  values : m.values ≤ m'.values
  value : ∀ p < m.values, m'.value p = m.value p
  calls : m.calls <+: m'.calls
  installs : m.installs <+: m'.installs
  returned : m.returned <+: m'.returned

/-- What a step leaves to a thread that has an entry of its own. -/
def Kept (m m' : AtomicHashMap V) (n : Nat) : Prop :=
  (n ∉ m.linked → n ∉ m'.linked) ∧ m'.valuePtr n = m.valuePtr n

/-- What a step leaves to a thread that does not take it. -/
structure Keeps (m m' : AtomicHashMap V) (pc : Pc V) : Prop extends Grows m m' where
  fresh : ∀ n ∈ pc.fresh, n < m.entries → n ∉ m.linked → Kept m m' n ∧ m'.next n = m.next n
  mark : ∀ p ∈ pc.mark, ∀ r ∈ m'.returned, r ∈ m.returned ∨ r.mark ≠ some p

variable {m m' : AtomicHashMap V} {i : Insert V} {k : Int} {v : V} {n e : Nat} {prev target : Option Nat}

theorem Grows.refl (m : AtomicHashMap V) : Grows m m :=
  ⟨fun _ here => here, le_rfl, fun _ _ => rfl, le_rfl, fun _ _ => rfl, List.prefix_rfl, List.prefix_rfl,
    List.prefix_rfl⟩

theorem Grows.keeps (grows : Grows m m') (pc : Pc V)
    (fresh : ∀ n ∈ pc.fresh, n < m.entries → n ∉ m.linked → Kept m m' n ∧ m'.next n = m.next n)
    (same : m'.returned = m.returned) : Keeps m m' pc :=
  ⟨grows, fresh, fun _ _ _ member => .inl (same ▸ member)⟩

theorem Holds.grows {p : Nat} (holds : m.Holds p v) (grows : Grows m m') : m'.Holds p v :=
  ⟨holds.1.trans_le grows.values, (grows.value p holds.1).trans holds.2⟩

theorem Private.grows (own : m.Private i n) (grows : Grows m m') (kept : Kept m m' n) : m'.Private i n where
  bound := own.bound.trans_le grows.entries
  unlinked := kept.1 own.unlinked
  key := (grows.key n own.bound).trans own.key
  value := by
    rw [kept.2]
    exact own.value.grows grows

theorem Own.grows (own : m.Own i) (grows : Grows m m') : m'.Own i where
  called := grows.calls.subset own.called
  newValue p member := (own.newValue p member).grows grows

theorem Inv.key_eq (inv : Inv bits m) (grows : Grows m m') (member : e ∈ m.linked) : m'.key e = m.key e :=
  grows.key e (inv.bound e member).1

theorem Found.grows (found : m.Found k e) (inv : Inv bits m) (grows : Grows m m') : m'.Found k e :=
  ⟨grows.linked e found.1, (inv.key_eq grows found.1).trans found.2⟩

theorem Place.grows (place : m.Place bits k prev) (inv : Inv bits m) (grows : Grows m m') : m'.Place bits k prev := by
  intro e here
  obtain ⟨⟨member, bucket⟩, below⟩ := place e here
  have same := inv.key_eq grows member
  exact ⟨⟨grows.linked e member, by rw [same, bucket]⟩, by rwa [same]⟩

theorem Between.grows (between : m.Between bits k prev target) (inv : Inv bits m) (grows : Grows m m') :
    m'.Between bits k prev target := by
  refine ⟨between.1.grows inv grows, fun t here => ?_⟩
  obtain ⟨member, above⟩ := between.2 t here
  exact ⟨grows.linked t member, by rwa [inv.key_eq grows member]⟩

theorem Stands.keeps {first : Nat} {pc : Pc V} (stands : m.Stands bits first pc) (inv : Inv bits m)
    (keeps : Keeps m m' pc) : m'.Stands bits first pc := by
  have grows := keeps.toGrows
  have mine : ∀ {i : Insert V} {n}, n ∈ pc.fresh → m.Private i n → m'.Private i n := fun fresh own =>
    own.grows grows (keeps.fresh _ fresh own.bound own.unlinked).1
  cases pc with
  | idle => trivial
  | has key prev => exact stands.grows inv grows
  | find op prev =>
    cases op with
    | get key => exact stands.grows inv grows
    | insert i =>
      obtain ⟨place, own, entry⟩ := stands
      exact ⟨place.grows inv grows, own.grows grows, fun n here => mine here (entry n here)⟩
  | getValue key target => exact stands.grows inv grows
  | loadValue i target =>
    obtain ⟨found, own, entry⟩ := stands
    exact ⟨found.grows inv grows, own.grows grows, fun n here => mine here (entry n here)⟩
  | casValue i target old new =>
    obtain ⟨found, own, entry, holds⟩ := stands
    exact ⟨found.grows inv grows, own.grows grows, fun n here => mine here (entry n here), holds.grows grows⟩
  | newEntry i prev target => exact ⟨stands.1.grows inv grows, stands.2.grows grows⟩
  | storeNext i prev target n =>
    obtain ⟨between, own, entry⟩ := stands
    exact ⟨between.grows inv grows, own.grows grows, mine rfl entry⟩
  | casNext i prev target n =>
    obtain ⟨between, own, entry, points⟩ := stands
    exact ⟨between.grows inv grows, own.grows grows, mine rfl entry,
      (keeps.fresh n rfl entry.bound entry.unlinked).2.trans points⟩
  | ret call result point =>
    refine ⟨stands.1.mono grows.installs, fun r member p own => ?_⟩
    rcases keeps.mark p own r member with old | other
    · exact stands.2 r old p own
    · exact other

/-- What a thread knew of the calls before its own, and what it knows at its next access. -/
theorem At.next {l : Local V} (here : At bits m l) (grows : Grows m m') {pc : Pc V}
    (stands : m'.Stands bits l.first pc) : At bits m' { l with pc := pc } where
  began := here.began.trans grows.returned.length_le
  first := here.first.trans grows.installs.length_le
  before := by
    obtain ⟨more, same⟩ := grows.returned
    rw [← same, List.take_append_of_le_length here.began]
    exact here.before
  stands := stands

theorem At.keeps {l : Local V} (here : At bits m l) (inv : Inv bits m) (keeps : Keeps m m' l.pc) : At bits m' l :=
  here.next keeps.toGrows (here.stands.keeps inv keeps)

theorem pointer_setPointer (m : AtomicHashMap V) (bucket : Nat) (prev target : Option Nat) :
    (m.setPointer bucket prev target).pointer bucket = Function.update (m.pointer bucket) prev target := by
  funext q
  cases prev with
  | none =>
    cases q with
    | none => simp only [pointer, setPointer, Option.elim_none, Function.update_self]
    | some e => rfl
  | some e =>
    cases q with
    | none => rfl
    | some e' =>
      by_cases same : e' = e
      · subst same
        simp only [pointer, setPointer, Option.elim_some, Function.update_self]
      · rw [Function.update_of_ne (by simpa using same)]
        exact Function.update_of_ne same ..

theorem pointer_setPointer_of_ne {bucket bucket' : Nat} {prev target q : Option Nat} (other : bucket' ≠ bucket)
    (apart : ∀ e ∈ prev, q ≠ some e) : (m.setPointer bucket prev target).pointer bucket' q = m.pointer bucket' q := by
  cases q with
  | none =>
    cases prev with
    | none => exact Function.update_of_ne other ..
    | some e => rfl
  | some e' =>
    cases prev with
    | none => rfl
    | some e => exact Function.update_of_ne (fun same => apart e rfl (congrArg some same)) ..

/-- A place below `k` that leads above `k`, or nowhere: the key is in no bucket. -/
theorem Inv.key_ne (inv : Inv bits m) (place : m.Place bits k prev)
    (above : ∀ t ∈ m.pointer (index bits k) prev, k < m.key t) (member : e ∈ m.linked) : m.key e ≠ k := by
  intro same
  have here : m.InBucket bits (index bits k) e := ⟨member, by rw [same]⟩
  exact (inv.chain (index bits k)).absent (fun a inside => (place a inside).1) (fun a inside => (place a inside).2)
    above here same

theorem Inv.eq_of_key_eq (inv : Inv bits m) {e' : Nat} (first : e ∈ m.linked) (second : e' ∈ m.linked)
    (same : m.key e = m.key e') : e = e' :=
  (inv.chain (index bits (m.key e))).inj e e' ⟨first, rfl⟩ ⟨second, by rw [same]⟩ same

theorem Linearized.mono (linearized : m.Linearized) (installs : m.installs <+: m'.installs)
    (returned : m'.returned = m.returned) : m'.Linearized := by
  refine ⟨fun r member => ?_, ?_, ?_⟩
  · rw [returned] at member
    exact (linearized.ok r member).mono installs
  · rw [returned]
    exact linearized.order
  · rw [returned]
    exact linearized.once

theorem Inv.start (inv : Inv bits m) (call : Call V) : Inv bits (m.start call).1 where
  chain := inv.chain
  bound := inv.bound
  present := inv.present
  absent := inv.absent
  called install member := List.mem_append_left _ (inv.called install member)
  began := inv.began
  linearized := inv.linearized.mono List.prefix_rfl rfl

theorem grows_start (m : AtomicHashMap V) (call : Call V) : Grows m (m.start call).1 :=
  { Grows.refl m with calls := List.prefix_append _ _ }

theorem grows_newValue (m : AtomicHashMap V) (v : V) : Grows m (m.newValue v) :=
  { Grows.refl m with
    values := Nat.le_succ _
    value := fun _ bound => Function.update_of_ne bound.ne .. }

theorem Inv.newValue (inv : Inv bits m) (v : V) : Inv bits (m.newValue v) where
  chain := inv.chain
  bound e member := (inv.bound e member).imp_right Nat.lt_succ_of_lt
  present e member :=
    (inv.present e member).trans (congrArg some ((grows_newValue m v).value _ (inv.bound e member).2).symm)
  absent := inv.absent
  called := inv.called
  began := inv.began
  linearized := inv.linearized.mono List.prefix_rfl rfl

theorem holds_newValue (m : AtomicHashMap V) (v : V) : (m.newValue v).Holds m.values v :=
  ⟨Nat.lt_succ_self _, Function.update_self ..⟩

theorem grows_newEntry (m : AtomicHashMap V) (k : Int) (v : V) : Grows m (m.newEntry k v) :=
  { Grows.refl m with
    entries := Nat.le_succ _
    key := fun _ bound => Function.update_of_ne bound.ne ..
    values := Nat.le_succ _
    value := fun _ bound => Function.update_of_ne bound.ne .. }

theorem Inv.newEntry (inv : Inv bits m) (k : Int) (v : V) : Inv bits (m.newEntry k v) := by
  have grows := grows_newEntry m k v
  have pointer : ∀ e ∈ m.linked, (m.newEntry k v).valuePtr e = m.valuePtr e := fun e member =>
    Function.update_of_ne (inv.bound e member).1.ne ..
  refine ⟨fun bucket => ?_, fun e member => ?_, fun e member => ?_, fun k' none => ?_, inv.called, inv.began,
    inv.linearized.mono List.prefix_rfl rfl⟩
  · refine (inv.chain bucket).congr (fun a => and_congr_right fun member => ?_)
      (fun a inside => inv.key_eq grows inside.1) fun p inside => ?_
    · rw [inv.key_eq grows member]
    · cases p with
      | none => rfl
      | some e => exact Function.update_of_ne (inv.bound e (inside e rfl).1).1.ne ..
  · rw [pointer e member]
    exact ⟨Nat.lt_succ_of_lt (inv.bound e member).1, Nat.lt_succ_of_lt (inv.bound e member).2⟩
  · rw [pointer e member, inv.key_eq grows member, grows.value _ (inv.bound e member).2]
    exact inv.present e member
  · refine inv.absent k' fun e member => ?_
    rw [← inv.key_eq grows member]
    exact none e member

theorem private_newEntry (inv : Inv bits m) (i : Insert V) : (m.newEntry i.key i.value).Private i m.entries where
  bound := Nat.lt_succ_self _
  unlinked member := Nat.lt_irrefl _ (inv.bound _ member).1
  key := Function.update_self ..
  value := by
    rw [show (m.newEntry i.key i.value).valuePtr m.entries = m.values from Function.update_self ..]
    exact ⟨Nat.lt_succ_self _, Function.update_self ..⟩

/-- The pointer of an entry that is not linked. -/
theorem Inv.storeNext (inv : Inv bits m) (unlinked : n ∉ m.linked) (target : Option Nat) :
    Inv bits { m with next := Function.update m.next n target } := by
  refine ⟨fun bucket => ?_, inv.bound, inv.present, inv.absent, inv.called, inv.began,
    inv.linearized.mono List.prefix_rfl rfl⟩
  refine (inv.chain bucket).congr (fun _ => Iff.rfl) (fun _ _ => rfl) fun p inside => ?_
  cases p with
  | none => rfl
  | some e =>
    refine Function.update_of_ne ?_ ..
    rintro rfl
    exact unlinked (inside e rfl).1

theorem grows_storeNext (m : AtomicHashMap V) (n : Nat) (target : Option Nat) :
    Grows m { m with next := Function.update m.next n target } :=
  { Grows.refl m with }

theorem grows_exchangeValue (m : AtomicHashMap V) (i : Insert V) (target new : Nat) :
    Grows m (m.exchangeValue i target new) :=
  { Grows.refl m with installs := List.prefix_append _ _ }

theorem called_concat (inv : Inv bits m) (own : m.Own i) {install : Int × V}
    (member : install ∈ m.installs ++ [(i.key, i.value)]) : .set install.1 install.2 ∈ m.calls := by
  rcases List.mem_append.mp member with old | last
  · exact inv.called install old
  · cases List.mem_singleton.mp last
    exact own.called

/-- The entry of a key gets another value. -/
theorem Inv.exchangeValue {target new : Nat} (inv : Inv bits m) (found : m.Found i.key target) (own : m.Own i)
    (holds : m.Holds new i.value) : Inv bits (m.exchangeValue i target new) := by
  have installed : content (m.exchangeValue i target new).installs =
      Function.update (content m.installs) i.key (some i.value) := content_concat _ _
  refine ⟨inv.chain, fun e member => ⟨(inv.bound e member).1, ?_⟩, fun e member => ?_, fun k none => ?_,
    fun install member => called_concat inv own member, inv.began, inv.linearized.mono (List.prefix_append _ _) rfl⟩
  · by_cases same : e = target
    · subst same
      rw [show (m.exchangeValue i e new).valuePtr e = new from Function.update_self ..]
      exact holds.1
    · rw [show (m.exchangeValue i target new).valuePtr e = m.valuePtr e from Function.update_of_ne same ..]
      exact (inv.bound e member).2
  · rw [installed]
    by_cases same : e = target
    · subst same
      rw [show (m.exchangeValue i e new).valuePtr e = new from Function.update_self ..,
        show (m.exchangeValue i e new).key e = i.key from found.2, Function.update_self]
      exact congrArg some holds.2.symm
    · rw [show (m.exchangeValue i target new).valuePtr e = m.valuePtr e from Function.update_of_ne same ..,
        Function.update_of_ne]
      · exact inv.present e member
      · exact fun equal => same (inv.eq_of_key_eq member found.1 (equal.trans found.2.symm))
  · have other : k ≠ i.key := fun equal => none target found.1 (found.2.trans equal.symm)
    rw [installed, Function.update_of_ne other]
    exact inv.absent k none

theorem grows_exchangeNext (m : AtomicHashMap V) (bucket : Nat) (i : Insert V) (prev : Option Nat) (n : Nat) :
    Grows m (m.exchangeNext bucket i prev n) :=
  { Grows.refl m with
    linked := fun _ member => List.mem_cons_of_mem _ member
    installs := List.prefix_append _ _ }

/-- A new entry comes between `prev` and what followed it. -/
theorem Inv.exchangeNext (inv : Inv bits m) (between : m.Between bits i.key prev target) (own : m.Own i)
    (entry : m.Private i n) (stored : m.next n = target) (points : m.pointer (index bits i.key) prev = target) :
    Inv bits (m.exchangeNext (index bits i.key) i prev n) := by
  have place := between.1
  have above : ∀ t ∈ m.pointer (index bits i.key) prev, i.key < m.key t := fun t here =>
    (between.2 t (points ▸ here)).2
  have installed : content (m.exchangeNext (index bits i.key) i prev n).installs =
      Function.update (content m.installs) i.key (some i.value) := content_concat _ _
  refine ⟨fun bucket => ?_, fun e member => ?_, fun e member => ?_, fun k none => ?_,
    fun install member => called_concat inv own member, inv.began, inv.linearized.mono (List.prefix_append _ _) rfl⟩
  · by_cases same : bucket = index bits i.key
    · subst same
      have longer := (inv.chain (index bits i.key)).insert (n := n) (fun a inside => (place a inside).1)
        (fun inside => entry.unlinked inside.1) (fun a inside => entry.key.symm ▸ (place a inside).2)
        (fun t inside => entry.key.symm ▸ above t inside) (stored.trans points.symm)
      refine longer.congr (fun a => ⟨?_, ?_⟩) (fun _ _ => rfl) fun p _ => ?_
      · rintro ⟨member, bucket⟩
        rcases List.mem_cons.mp member with rfl | old
        · exact .inr rfl
        · exact .inl ⟨old, bucket⟩
      · rintro (⟨member, bucket⟩ | rfl)
        · exact ⟨List.mem_cons_of_mem _ member, bucket⟩
        · exact ⟨List.mem_cons_self, congrArg (index bits) entry.key⟩
      · exact congrFun (pointer_setPointer m (index bits i.key) prev (some n)) p
    · refine (inv.chain bucket).congr (fun a => ⟨?_, ?_⟩) (fun _ _ => rfl) fun p inside => ?_
      · rintro ⟨member, here⟩
        rcases List.mem_cons.mp member with rfl | old
        · exact absurd (here.symm.trans (congrArg (index bits) entry.key)) same
        · exact ⟨old, here⟩
      · rintro ⟨member, here⟩
        exact ⟨List.mem_cons_of_mem _ member, here⟩
      · refine pointer_setPointer_of_ne same ?_
        rintro e there rfl
        exact same ((inside e rfl).2.symm.trans (place e there).1.2)
  · rcases List.mem_cons.mp member with rfl | old
    · exact ⟨entry.bound, entry.value.1⟩
    · exact inv.bound e old
  · rw [installed]
    rcases List.mem_cons.mp member with rfl | old
    · rw [show (m.exchangeNext (index bits i.key) i prev e).key e = i.key from entry.key, Function.update_self]
      exact congrArg some entry.value.2.symm
    · exact (Function.update_of_ne (inv.key_ne place above old) ..).trans (inv.present e old)
  · have other : k ≠ i.key := fun equal => none n List.mem_cons_self (entry.key.trans equal.symm)
    rw [installed, Function.update_of_ne other]
    exact inv.absent k fun e member => none e (List.mem_cons_of_mem _ member)

theorem grows_ret (m : AtomicHashMap V) (r : Returned V) : Grows m { m with returned := m.returned ++ [r] } :=
  { Grows.refl m with returned := List.prefix_append _ _ }

/-- A call returns. -/
theorem Inv.ret {r : Returned V} (inv : Inv bits m) (began : r.began ≤ m.returned.length)
    (before : ∀ w ∈ m.returned.take r.began, w.last ≤ r.first) (ok : r.Ok m.installs)
    (once : ∀ w ∈ m.returned, ∀ p ∈ r.mark, w.mark ≠ some p) :
    Inv bits { m with returned := m.returned ++ [r] } := by
  refine ⟨inv.chain, inv.bound, inv.present, inv.absent, inv.called, fun w member => ?_, fun w member => ?_,
    fun w member => ?_, ?_⟩
  · rw [List.length_append]
    rcases List.mem_append.mp member with old | last
    · exact (inv.began w old).trans (Nat.le_add_right _ _)
    · cases List.mem_singleton.mp last
      exact began.trans (Nat.le_add_right _ _)
  · rcases List.mem_append.mp member with old | last
    · exact inv.linearized.ok w old
    · cases List.mem_singleton.mp last
      exact ok
  · rcases List.mem_append.mp member with old | last
    · rw [List.take_append_of_le_length (inv.began w old)]
      exact inv.linearized.order w old
    · cases List.mem_singleton.mp last
      rw [List.take_append_of_le_length began]
      exact before
  · rw [List.filterMap_append]
    cases mark : r.mark with
    | none => simpa only [List.filterMap_cons, mark, List.filterMap_nil, List.append_nil] using inv.linearized.once
    | some p =>
      simp only [List.filterMap_cons, mark, List.filterMap_nil]
      refine List.nodup_append.mpr ⟨inv.linearized.once, List.pairwise_singleton _ _, fun q old q' last => ?_⟩
      rw [List.mem_singleton.mp last]
      rintro rfl
      obtain ⟨w, member, same⟩ := List.mem_filterMap.mp old
      exact once w member q mark same

end CyberRT.AtomicHashMap

import CyberRT.Base.AtomicHashMapInv

namespace CyberRT.AtomicHashMap
open Concur
universe u
variable {V : Type u} {bits : Nat}
variable {m m' : AtomicHashMap V} {i : Insert V} {k : Int} {v : V} {n e : Nat} {prev target : Option Nat}

/-- A pointer that is followed leads to an entry of the bucket. -/
theorem Inv.follow (inv : Inv bits m) (place : m.Place bits k prev)
    (points : m.pointer (index bits k) prev = some e) : m.InBucket bits (index bits k) e :=
  ((inv.chain (index bits k)).up prev e (fun a inside => (place a inside).1) points).1

theorem Inv.missing (inv : Inv bits m) (place : m.Place bits k prev)
    (above : ∀ t ∈ m.pointer (index bits k) prev, k < m.key t) : content m.installs k = none :=
  inv.absent k fun _ member => inv.key_ne place above member

/-- What `Find` comes to with one load: a further entry, the entry of the key, or the place where it is missing. -/
theorem Inv.find_cases (inv : Inv bits m) (op : Finder V) (place : m.Place bits op.key prev) :
    (∃ t, m.find bits op prev = .find op (some t) ∧ m.Place bits op.key (some t)) ∨
    (∃ t, m.find bits op prev = op.continues m prev (some t) true ∧ m.Found op.key t) ∨
    ∃ target, m.find bits op prev = op.continues m prev target false ∧ m.Between bits op.key prev target ∧
      content m.installs op.key = none := by
  unfold find
  cases points : m.pointer (index bits op.key) prev with
  | none =>
    refine .inr (.inr ⟨none, rfl, ⟨place, by rintro t ⟨⟩⟩, inv.missing place ?_⟩)
    rw [points]
    rintro t ⟨⟩
  | some t =>
    have inside := inv.follow place points
    dsimp only
    split
    next same => exact .inr (.inl ⟨t, rfl, inside.1, same⟩)
    next other =>
      split
      next above =>
        refine .inr (.inr ⟨some t, rfl, ⟨place, ?_⟩, inv.missing place ?_⟩)
        · rintro t' ⟨⟩
          exact ⟨inside.1, above⟩
        · rw [points]
          rintro t' ⟨⟩
          exact above
      next notAbove =>
        refine .inl ⟨t, rfl, ?_⟩
        rintro t' ⟨⟩
        exact ⟨inside, lt_of_le_of_ne (not_lt.mp notAbove) other⟩

theorem Inv.has_cases (inv : Inv bits m) (place : m.Place bits k prev) :
    (∃ t, m.has bits k prev = .has k (some t) ∧ m.Place bits k (some t)) ∨
    m.has bits k prev = .ret (.has k) (.found (content m.installs k).isSome) m.installs.length := by
  unfold has
  cases points : m.pointer (index bits k) prev with
  | none =>
    have missing := inv.missing place (by rw [points]; rintro t ⟨⟩)
    exact .inr (by rw [missing]; rfl)
  | some t =>
    have inside := inv.follow place points
    dsimp only
    split
    next below =>
      refine .inl ⟨t, rfl, ?_⟩
      rintro t' ⟨⟩
      exact ⟨inside, below⟩
    next notBelow =>
      refine .inr ?_
      by_cases same : m.key t = k
      · have present := inv.present t inside.1
        rw [same] at present
        rw [present, decide_eq_true same]
        rfl
      · have above : k < m.key t := lt_of_le_of_ne (not_lt.mp notBelow) (Ne.symm same)
        have missing := inv.missing place (by rw [points]; rintro t' ⟨⟩; exact above)
        rw [missing, decide_eq_false same]
        rfl

/-- A call that installs nothing stands where the map gives its result. -/
theorem stands_query {first : Nat} {call : Call V} {result : Result V} (first_le : first ≤ m.installs.length)
    (query : call.effect = none) (gives : result = call.result (content m.installs)) :
    m.Stands bits first (.ret call result m.installs.length) := by
  refine ⟨⟨first_le, le_rfl, ?_, fun install own => ?_⟩, fun r _ p own => ?_⟩
  · rw [List.take_length]
    exact gives
  · cases query.symm.trans own
  · rw [Call.mark, query] at own
    cases own

/-- `Find` takes its caller to an access for which all is prepared. -/
theorem Inv.stands_find {first : Nat} {op : Finder V} (inv : Inv bits m) (first_le : first ≤ m.installs.length)
    (stands : m.Stands bits first (.find op prev)) : m.Stands bits first (m.find bits op prev) := by
  cases op with
  | get key =>
    rcases inv.find_cases (.get key) stands with ⟨t, same, place⟩ | ⟨t, same, found⟩ | ⟨target, same, -, missing⟩
    · rw [same]
      exact place
    · rw [same]
      exact found
    · rw [same]
      exact stands_query first_le rfl (congrArg Result.value missing.symm)
  | insert i =>
    obtain ⟨place, own, entry⟩ := stands
    rcases inv.find_cases (.insert i) place with ⟨t, same, place⟩ | ⟨t, same, found⟩ | ⟨target, same, between, -⟩
    · rw [same]
      exact ⟨place, own, entry⟩
    · rw [same]
      exact ⟨found, own, entry⟩
    · rw [same]
      simp only [Finder.continues]
      split
      next => exact ⟨between, own⟩
      next n new => exact ⟨between, own, entry n new⟩

theorem Inv.stands_has {first : Nat} (inv : Inv bits m) (first_le : first ≤ m.installs.length)
    (place : m.Place bits k prev) : m.Stands bits first (m.has bits k prev) := by
  rcases inv.has_cases place with ⟨t, same, place⟩ | same
  · rw [same]
    exact place
  · rw [same]
    exact stands_query first_le rfl rfl

/-- A call stands at the installation that it has just made. -/
theorem stands_set {first : Nat} (inv : Inv bits m) (first_le : first ≤ m.installs.length)
    (installs : m'.installs = m.installs ++ [(k, v)]) (returned : m'.returned = m.returned) :
    m'.Stands bits first (.ret (.set k v) .done m.installs.length) := by
  refine ⟨⟨first_le, ?_, rfl, ?_⟩, ?_⟩
  · rw [installs, List.length_append]
    exact Nat.le_add_right _ _
  · rintro install ⟨⟩
    rw [installs]
    exact List.getElem?_concat_length
  · rintro r member p ⟨⟩ same
    rw [returned] at member
    exact Nat.lt_irrefl _ ((inv.linearized.ok r member).mark_lt same)

theorem Inv.at_start (inv : Inv bits m) (call : Call V) : At bits (m.start call).1 (m.start call).2 where
  began := le_rfl
  first := le_rfl
  before w member := (inv.linearized.ok w (List.mem_of_mem_take member)).1
  stands := by
    cases call with
    | has key => rintro e ⟨⟩
    | get key => rintro e ⟨⟩
    | set key value =>
      refine ⟨by rintro e ⟨⟩, ⟨List.mem_append_right _ (List.mem_singleton.mpr rfl), ?_⟩, ?_⟩
      · rintro p ⟨⟩
      · rintro n ⟨⟩

/-- `new_value` is allocated, in this turn of the loop or in an earlier one. -/
theorem Inv.ensureValue (inv : Inv bits m) (own : m.Own i) :
    Inv bits (m.ensureValue i).1 ∧ Grows m (m.ensureValue i).1 ∧ (∀ n, Kept m (m.ensureValue i).1 n) ∧
      (m.ensureValue i).1.next = m.next ∧ (m.ensureValue i).1.returned = m.returned ∧
      (m.ensureValue i).1.Holds (m.ensureValue i).2 i.value := by
  unfold AtomicHashMap.ensureValue
  split
  next p new => exact ⟨inv, .refl m, fun _ => ⟨id, rfl⟩, rfl, rfl, own.newValue p new⟩
  next =>
    exact ⟨inv.newValue i.value, grows_newValue m i.value, fun _ => ⟨id, rfl⟩, rfl, rfl, holds_newValue m i.value⟩

theorem Stands.fresh {first : Nat} {pc : Pc V} (stands : m.Stands bits first pc) (fresh : n ∈ pc.fresh) :
    n < m.entries ∧ n ∉ m.linked := by
  have known : ∀ {i : Insert V}, m.Private i n → n < m.entries ∧ n ∉ m.linked := fun own => ⟨own.bound, own.unlinked⟩
  cases pc with
  | find op prev =>
    cases op with
    | get key => cases fresh
    | insert i => exact known (stands.2.2 n fresh)
  | loadValue i target => exact known (stands.2.2 n fresh)
  | casValue i target old new => exact known (stands.2.2.1 n fresh)
  | storeNext i prev target n' =>
    cases fresh
    exact known stands.2.2
  | casNext i prev target n' =>
    cases fresh
    exact known stands.2.2.1
  | idle | has | getValue | newEntry | ret => cases fresh

theorem Stands.mark_lt {first p : Nat} {pc : Pc V} (stands : m.Stands bits first pc) (mark : p ∈ pc.mark) :
    p < m.installs.length := by
  cases pc with
  | ret call result point =>
    obtain ⟨install, own, rfl⟩ := Option.map_eq_some_iff.mp mark
    exact (List.getElem?_eq_some_iff.mp (stands.1.puts install own)).1
  | _ => cases mark

/-- A thread moves on and has no entry and no installation that it did not have. -/
theorem Apart.next {l l' theirs : Local V} (apart : Apart l theirs)
    (fresh : l'.pc.fresh = none ∨ l'.pc.fresh = l.pc.fresh) (mark : l'.pc.mark = none) : Apart l' theirs where
  fresh n mine := by
    rcases fresh with none | same
    · cases none.symm.trans mine
    · exact apart.fresh n (same.symm.trans mine)
  mark p mine := by cases mark.symm.trans mine

/-- A thread has made an installation. -/
theorem apart_set {first : Nat} {l' theirs : Local V} (stands : m.Stands bits first theirs.pc)
    (none : l'.pc.fresh = none) (mark : l'.pc.mark = some m.installs.length) : Apart l' theirs where
  fresh n mine := by cases none.symm.trans mine
  mark p mine same := by
    cases mark.symm.trans mine
    exact Nat.lt_irrefl _ (stands.mark_lt same)

theorem fresh_find (m : AtomicHashMap V) (bits : Nat) (op : Finder V) (prev : Option Nat) :
    (m.find bits op prev).fresh = (Pc.find op prev).fresh ∧ (m.find bits op prev).mark = none := by
  have leads : ∀ target found, (op.continues m prev target found).fresh = (Pc.find op prev).fresh ∧
      (op.continues m prev target found).mark = none := by
    intro target found
    cases op with
    | get key =>
      simp only [Finder.continues]
      split
      · exact ⟨rfl, rfl⟩
      · exact ⟨rfl, rfl⟩
    | insert i =>
      simp only [Finder.continues]
      split
      · exact ⟨rfl, rfl⟩
      · split
        next none => exact ⟨none.symm, rfl⟩
        next n new => exact ⟨new.symm, rfl⟩
  unfold find
  split
  · exact leads _ _
  · split
    · exact leads _ _
    · split
      · exact leads _ _
      · cases op <;> exact ⟨rfl, rfl⟩

theorem fresh_has (m : AtomicHashMap V) (bits : Nat) (key : Int) (prev : Option Nat) :
    (m.has bits key prev).fresh = none ∧ (m.has bits key prev).mark = none := by
  unfold has
  split
  · exact ⟨rfl, rfl⟩
  · split
    · exact ⟨rfl, rfl⟩
    · exact ⟨rfl, rfl⟩

theorem keeps_start (m : AtomicHashMap V) (call : Call V) (pc : Pc V) : Keeps m (m.start call).1 pc :=
  (grows_start m call).keeps pc (fun _ _ _ _ => ⟨⟨id, rfl⟩, rfl⟩) rfl

theorem fresh_start (m : AtomicHashMap V) (call : Call V) :
    (m.start call).2.pc.fresh = none ∧ (m.start call).2.pc.mark = none := by
  cases call <;> exact ⟨rfl, rfl⟩

theorem Inv.exists_bucket (inv : Inv bits m) (bucket : Nat) :
    ∃ es, Linked m.next (m.head bucket) es ∧ es.Pairwise (m.key · < m.key ·) ∧
      ∀ e, e ∈ es ↔ m.InBucket bits bucket e := by
  obtain ⟨es, linked, sorted, exact⟩ := (inv.chain bucket).exists_linked (p := none) (by rintro a ⟨⟩) m.linked
    fun a inside _ => inside.1
  refine ⟨es, linked, sorted, fun e => (exact e).trans ⟨And.left, fun inside => ⟨inside, ?_⟩⟩⟩
  rintro b ⟨⟩

theorem Inv.contains_iff (inv : Inv bits m) : m.Contains bits k ↔ ∃ e ∈ m.linked, m.key e = k := by
  obtain ⟨es, linked, -, exact⟩ := inv.exists_bucket (index bits k)
  constructor
  · rintro ⟨es', linked', e, member, same⟩
    rw [linked'.unique linked, exact] at member
    exact ⟨e, member.1, same⟩
  · rintro ⟨e, member, same⟩
    exact ⟨es, linked, e, (exact e).mpr ⟨member, by rw [same]⟩, same⟩

theorem Inv.contains_grows (inv : Inv bits m) (inv' : Inv bits m') (grows : Grows m m') (contains : m.Contains bits k) :
    m'.Contains bits k := by
  obtain ⟨e, member, same⟩ := inv.contains_iff.mp contains
  exact inv'.contains_iff.mpr ⟨e, grows.linked e member, (inv.key_eq grows member).trans same⟩

/-- A key whose value was installed is in the list of its bucket. -/
theorem Inv.contains_of_mem (inv : Inv bits m) (installed : (k, v) ∈ m.installs) : m.Contains bits k := by
  rw [inv.contains_iff]
  by_contra none
  push Not at none
  exact content_eq_none (inv.absent k none) v installed

/-- What a map is to its callers. Every bucket is strictly increasing in the key, and has a key once a `Set` of it has
returned. A `Get` gives a value that a `Set` of the key installed, which no `Set` of the key that had returned when the
`Get` began has replaced; `Get` and `Has` fail only if no `Set` of the key had returned then. -/
structure Correct (bits : Nat) (m : AtomicHashMap V) : Prop where
  sorted : ∀ bucket, ∃ es, Linked m.next (m.head bucket) es ∧ es.Pairwise (m.key · < m.key ·) ∧
    ∀ e ∈ es, index bits (m.key e) = bucket
  inserted : ∀ w ∈ m.returned, ∀ k v, w.call = .set k v → m.Contains bits k
  value : ∀ r ∈ m.returned, ∀ k v, r.call = .get k → r.result = .value (some v) →
    ∃ p < r.last, m.installs[p]? = some (k, v) ∧ .set k v ∈ m.calls ∧
      ∀ w ∈ m.returned.take r.began, ∀ v', w.call = .set k v' → w.point ≤ p
  fails : ∀ r ∈ m.returned, ∀ k, r.call = .get k ∧ r.result = .value none ∨ r.call = .has k ∧ r.result = .found false →
    ∀ w ∈ m.returned.take r.began, ∀ v, w.call ≠ .set k v
  linearized : m.Linearized

/-- A `Set` that had returned when a call began has installed its value before the point of the call. -/
theorem Linearized.earlier {r w : Returned V} (linearized : m.Linearized) (call : r ∈ m.returned)
    (earlier : w ∈ m.returned.take r.began) (set : w.call = .set k v) :
    (m.installs.take r.point)[w.point]? = some (k, v) := by
  have put := (linearized.ok w (List.mem_of_mem_take earlier)).put (by rw [set]; rfl)
  have order := linearized.order r call w earlier
  have bounds := (linearized.ok r call).bounds
  rw [List.getElem?_take_of_lt (by omega)]
  exact put.2

theorem Inv.correct (inv : Inv bits m) : Correct bits m where
  sorted bucket := by
    obtain ⟨es, linked, sorted, exact⟩ := inv.exists_bucket bucket
    exact ⟨es, linked, sorted, fun e member => ((exact e).mp member).2⟩
  inserted w member k v set := by
    have put := (inv.linearized.ok w member).put (by rw [set]; rfl)
    exact inv.contains_of_mem (List.mem_of_getElem? put.2)
  value r member k v get result := by
    have ok := inv.linearized.ok r member
    have present := ok.gives
    rw [result, get] at present
    obtain ⟨p, here, latest⟩ := content_eq_some (Result.value.inj present).symm
    have before : p < r.point := (List.getElem?_eq_some_iff.mp here).1.trans_le (List.length_take_le _ _)
    rw [List.getElem?_take_of_lt before] at here
    refine ⟨p, before.trans_le ok.bounds.2, here, inv.called _ (List.mem_of_getElem? here), fun w earlier v' set => ?_⟩
    exact latest w.point v' (inv.linearized.earlier member earlier set)
  fails r member k failed w earlier v set := by
    have gives := (inv.linearized.ok r member).gives
    have missing : content (m.installs.take r.point) k = none := by
      rcases failed with ⟨get, result⟩ | ⟨has, result⟩
      · rw [result, get] at gives
        exact (Result.value.inj gives).symm
      · rw [result, has] at gives
        exact Option.isNone_iff_eq_none.mp (Option.isSome_eq_false_iff.mp (Result.found.inj gives).symm)
    exact content_eq_none missing v (List.mem_of_getElem? (inv.linearized.earlier member earlier set))
  linearized := inv.linearized

variable [Inhabited V]

theorem own {l l' : Local V} {c : Choice V} (inv : Inv bits m) (here : At bits m l)
    (moved : act bits m l c = some (m', l')) : Inv bits m' ∧ Grows m m' ∧ At bits m' l' := by
  have stands := here.stands
  cases c with
  | call call =>
    simp only [act] at moved
    split at moved
    · cases moved
      exact ⟨inv.start call, grows_start m call, inv.at_start call⟩
    · cases moved
  | setDefault key =>
    simp only [act] at moved
    split at moved
    · cases moved
      exact ⟨inv.start _, grows_start m _, inv.at_start _⟩
    · cases moved
  | next =>
    obtain ⟨pc, began, first⟩ := l
    cases pc with
    | idle => cases moved
    | has key prev =>
      cases moved
      exact ⟨inv, .refl m, here.next (.refl m) (inv.stands_has here.first stands)⟩
    | find op prev =>
      cases moved
      exact ⟨inv, .refl m, here.next (.refl m) (inv.stands_find here.first stands)⟩
    | getValue key target =>
      cases moved
      refine ⟨inv, .refl m, here.next (.refl m) (stands_query here.first rfl ?_)⟩
      have present := inv.present target stands.1
      rw [stands.2] at present
      exact congrArg Result.value present.symm
    | loadValue i target =>
      cases moved
      obtain ⟨found, mine, entry⟩ := stands
      obtain ⟨inv', grows, kept, -, -, holds⟩ := inv.ensureValue mine
      exact ⟨inv', grows, here.next grows ⟨found.grows inv grows, mine.grows grows,
        fun n new => (entry n new).grows grows (kept n), holds⟩⟩
    | casValue i target old new =>
      obtain ⟨found, mine, entry, holds⟩ := stands
      simp only [act] at moved
      split at moved
      · cases moved
        have grows := grows_exchangeValue m i target new
        exact ⟨inv.exchangeValue found mine holds, grows, here.next grows (stands_set inv here.first rfl rfl)⟩
      · cases moved
        refine ⟨inv, .refl m, here.next (.refl m) ⟨by rintro e ⟨⟩, ⟨mine.called, ?_⟩, fun n own => ?_⟩⟩
        · rintro p ⟨⟩
          exact holds
        · obtain ⟨bound, unlinked, key, value⟩ := entry n own
          exact ⟨bound, unlinked, key, value⟩
    | newEntry i prev target =>
      cases moved
      have grows := grows_newEntry m i.key i.value
      exact ⟨inv.newEntry i.key i.value, grows,
        here.next grows ⟨stands.1.grows inv grows, stands.2.grows grows, private_newEntry inv i⟩⟩
    | storeNext i prev target n =>
      cases moved
      obtain ⟨between, mine, entry⟩ := stands
      have grows := grows_storeNext m n target
      exact ⟨inv.storeNext entry.unlinked target, grows, here.next grows ⟨between.grows inv grows, mine.grows grows,
        entry.grows grows ⟨id, rfl⟩, Function.update_self ..⟩⟩
    | casNext i prev target n =>
      obtain ⟨between, mine, entry, stored⟩ := stands
      simp only [act] at moved
      split at moved
      next points =>
        cases moved
        have grows := grows_exchangeNext m (index bits i.key) i prev n
        exact ⟨inv.exchangeNext between mine entry stored points, grows,
          here.next grows (stands_set inv here.first rfl rfl)⟩
      next =>
        cases moved
        refine ⟨inv, .refl m, here.next (.refl m) ⟨by rintro e ⟨⟩, ⟨mine.called, mine.newValue⟩, ?_⟩⟩
        rintro n' ⟨⟩
        exact ⟨entry.bound, entry.unlinked, entry.key, entry.value⟩
    | ret call result point =>
      cases moved
      obtain ⟨valid, once⟩ := stands
      refine ⟨inv.ret here.began here.before ⟨le_rfl, ?_⟩ once, grows_ret m _, here.next (grows_ret m _) trivial⟩
      rw [List.take_length]
      exact valid

theorem other {l l' theirs : Local V} {c : Choice V} (inv : Inv bits m) (here : At bits m l) (there : At bits m theirs)
    (apart : Apart l theirs) (moved : act bits m l c = some (m', l')) : Keeps m m' theirs.pc ∧ Apart l' theirs := by
  have stands := here.stands
  have same : Keeps m m theirs.pc := (Grows.refl m).keeps theirs.pc (fun _ _ _ _ => ⟨⟨id, rfl⟩, rfl⟩) rfl
  cases c with
  | call call =>
    simp only [act] at moved
    split at moved
    · cases moved
      exact ⟨keeps_start m call theirs.pc, apart.next (.inl (fresh_start m call).1) (fresh_start m call).2⟩
    · cases moved
  | setDefault key =>
    simp only [act] at moved
    split at moved
    · cases moved
      exact ⟨keeps_start m _ theirs.pc, apart.next (.inl rfl) rfl⟩
    · cases moved
  | next =>
    obtain ⟨pc, began, first⟩ := l
    cases pc with
    | idle => cases moved
    | has key prev =>
      cases moved
      exact ⟨same, apart.next (.inl (fresh_has m bits key prev).1) (fresh_has m bits key prev).2⟩
    | find op prev =>
      cases moved
      exact ⟨same, apart.next (.inr (fresh_find m bits op prev).1) (fresh_find m bits op prev).2⟩
    | getValue key target =>
      cases moved
      exact ⟨same, apart.next (.inl rfl) rfl⟩
    | loadValue i target =>
      cases moved
      obtain ⟨-, grows, kept, next, returned, -⟩ := inv.ensureValue stands.2.1
      exact ⟨grows.keeps theirs.pc (fun n _ _ _ => ⟨kept n, congrFun next n⟩) returned, apart.next (.inr rfl) rfl⟩
    | casValue i target old new =>
      simp only [act] at moved
      split at moved
      · cases moved
        refine ⟨(grows_exchangeValue m i target new).keeps theirs.pc (fun n _ _ unlinked => ⟨⟨id, ?_⟩, rfl⟩) rfl,
          apart_set there.stands rfl rfl⟩
        refine Function.update_of_ne ?_ ..
        rintro rfl
        exact unlinked stands.1.1
      · cases moved
        exact ⟨same, apart.next (.inr rfl) rfl⟩
    | newEntry i prev target =>
      cases moved
      refine ⟨(grows_newEntry m i.key i.value).keeps theirs.pc (fun n _ bound _ => ⟨⟨id, ?_⟩, ?_⟩) rfl, ⟨?_, ?_⟩⟩
      · exact Function.update_of_ne bound.ne ..
      · exact Function.update_of_ne bound.ne ..
      · rintro n ⟨⟩ mine
        exact Nat.lt_irrefl _ (there.stands.fresh mine).1
      · rintro p ⟨⟩
    | storeNext i prev target n =>
      cases moved
      refine ⟨(grows_storeNext m n target).keeps theirs.pc (fun n' mine _ _ => ⟨⟨id, rfl⟩, ?_⟩) rfl,
        apart.next (.inr rfl) rfl⟩
      refine Function.update_of_ne ?_ ..
      rintro rfl
      exact apart.fresh n' rfl mine
    | casNext i prev target n =>
      obtain ⟨between, -⟩ := stands
      simp only [act] at moved
      split at moved
      · cases moved
        refine ⟨(grows_exchangeNext m _ i prev n).keeps theirs.pc (fun n' mine _ unlinked => ?_) rfl,
          apart_set there.stands rfl rfl⟩
        refine ⟨⟨fun _ again => ?_, rfl⟩, ?_⟩
        · rcases List.mem_cons.mp again with rfl | linked
          · exact apart.fresh n' rfl mine
          · exact unlinked linked
        · cases prev with
          | none => rfl
          | some e =>
            refine Function.update_of_ne ?_ ..
            rintro rfl
            exact unlinked (between.1 n' rfl).1.1
      · cases moved
        exact ⟨same, apart.next (.inr rfl) rfl⟩
    | ret call result point =>
      cases moved
      refine ⟨⟨grows_ret m _, fun _ _ _ _ => ⟨⟨id, rfl⟩, rfl⟩, fun p mine r member => ?_⟩, apart.next (.inl rfl) rfl⟩
      rcases List.mem_append.mp member with old | last
      · exact .inl old
      · cases List.mem_singleton.mp last
        exact .inr fun again => apart.mark p again mine

theorem outline (bits : Nat) : Config.Outline (act (V := V) bits) (Inv bits) (At bits) Apart where
  own _ _ _ _ _ inv here moved :=
    have ⟨inv', _, here'⟩ := own inv here moved
    ⟨inv', here'⟩
  other _ _ _ _ _ _ inv here there apart _ moved :=
    have ⟨keeps, apart'⟩ := other inv here there apart moved
    ⟨there.keeps inv keeps, apart', apart'.symm⟩

theorem inv_init (bits : Nat) : Inv bits (init (V := V)) where
  chain bucket := by
    refine (SortedChain.empty _).congr (fun a => ⟨fun inside => ?_, False.elim⟩) (fun _ _ => rfl) fun p _ => ?_
    · cases inside.1
    · cases p <;> rfl
  bound _ member := by cases member
  present _ member := by cases member
  absent _ _ := rfl
  called _ member := by cases member
  began _ member := by cases member
  linearized := ⟨fun _ member => (by cases member), fun _ member => (by cases member), .nil⟩

section Threads
variable {τ : Type*} [DecidableEq τ] {s : Config τ (AtomicHashMap V) (Local V)}

theorem reach_holds (reach : (machine τ V bits).Reach s) : Config.Holds (Inv bits) (At bits) Apart s := by
  have idle : At bits (init (V := V)) ⟨.idle, 0, 0⟩ := ⟨le_rfl, le_rfl, by rintro w ⟨⟩, trivial⟩
  have apart : Apart (V := V) ⟨.idle, 0, 0⟩ ⟨.idle, 0, 0⟩ := ⟨by rintro n ⟨⟩, by rintro p ⟨⟩⟩
  exact (outline bits).reach ⟨inv_init bits, fun _ => idle, fun _ _ _ => apart⟩ reach

/-- In every state of every interleaving, for any number of threads and any size of the table. A key that is in its
bucket stays there. -/
theorem linearizable {n : Nat} {state : Nat → Config τ (AtomicHashMap V) (Local V)} {event : Nat → τ × Choice V}
    (run : (machine τ V bits).Run n state event) :
    (∀ i ≤ n, Correct bits (state i).shared) ∧
      ∀ i j key, i ≤ j → j ≤ n → (state i).shared.Contains bits key → (state j).shared.Contains bits key := by
  refine ⟨fun i bound => (reach_holds (run.reach bound)).shared.correct, fun i j key before bound => ?_⟩
  refine run.later (R := fun s s' => s.shared.Contains bits key → s'.shared.Contains bits key) ?_ ?_ ?_ before bound
  · exact fun _ contains => contains
  · exact fun _ _ _ first second contains => second (first contains)
  · intro s e s' reach step contains
    have here := reach_holds reach
    obtain ⟨m, l, moved, rfl⟩ := Config.move_eq_some.mp step
    obtain ⟨inv', grows, -⟩ := own here.shared (here.thread _) moved
    exact here.shared.contains_grows inv' grows contains

end Threads

/-- Two threads insert into an empty bucket at once; the exchange of the second fails, and it finds its place before the
new entry. Its key is read afterwards. -/
def retried : List (Bool × Choice Nat) :=
  [(true, .call (.set 2 20)), (false, .call (.set 1 10)), (true, .next), (false, .next), (true, .next), (false, .next),
    (true, .next), (false, .next), (true, .next), (true, .next), (false, .next), (false, .next), (false, .next),
    (false, .next), (false, .next), (true, .call (.get 1)), (true, .next), (true, .next), (true, .next)]

theorem retried_correct :
    let m := ((machine Bool Nat 0).stateAt retried 19).shared
    m.returned.map Returned.result = [.done, .done, .value (some 10)] ∧ m.linked = [1, 0] ∧ Correct 0 m :=
  ⟨by decide, by decide, (linearizable (Machine.exec_run retried rfl (true, .next))).1 19 le_rfl⟩

end CyberRT.AtomicHashMap

import CyberRT.Base.ObjectPoolFree

namespace CyberRT.ObjectPool
open Concur

theorem At.of_none {p : ObjectPool} {l : Local} (free : l.transit? = none) (knows : p.Knows l) : At p l :=
  ⟨fun n carries => by simp [free] at carries, knows⟩

theorem act_own (p : ObjectPool) (l : Local) (c : Choice) (p' : ObjectPool) (l' : Local)
    (inv : Inv p) (here : At p l) (step : act p l c = some (p', l')) : Inv p' ∧ At p' l' := by
  cases act_cases step with
  | getObject | constructObject | returnNull | throw | empty => exact ⟨inv, .of_none rfl trivial⟩
  | load | retryPop => exact ⟨inv, .of_none rfl (seen_freeHead p)⟩
  | readNext => exact ⟨inv, .of_none rfl ⟨here.knows, fun _ => rfl⟩⟩
  | releaseObject node holds =>
    refine ⟨inv.releaseObject node, fun n carries => ?_, trivial⟩
    cases carries
    exact ⟨inv.held_lt node holds, fun xs free member => inv.apart xs free node member holds,
      fun still => (inv.held_nodup.not_mem_erase) still⟩
  | pop construct count node newNode top =>
    have current := here.knows.2 (by rw [top])
    have carried := inv.pop_carried top current
    cases construct <;>
    · refine ⟨inv.pop top current, fun n carries => ?_, trivial⟩
      cases carries
      exact carried
  | construct node => exact ⟨inv, here.carried, trivial⟩
  | hold node =>
    exact ⟨inv.hold (here.carried node rfl), .of_none rfl trivial⟩
  | loadTop node | retryPush node => exact ⟨inv, here.carried, seen_freeHead p⟩
  | link node oldHead =>
    have mine := here.carried node rfl
    refine ⟨inv.link mine, fun n carries => ?_, here.knows, ?_⟩
    · exact (here.carried n carries).link inv mine
    · exact Function.update_self ..
  | push node =>
    exact ⟨inv.push (here.carried node rfl) here.knows.2 _, .of_none rfl trivial⟩

/-- A successful exchange moves the counter, so every head loaded before it is old. -/
theorem Seen.moved {p : ObjectPool} {oldHead : PoolHead} (seen : p.Seen oldHead) (node : Option Nat) :
    Seen { p with freeHead := ⟨p.freeHead.count + 1, node⟩ } oldHead := by
  have before := seen.1
  exact ⟨by dsimp only; omega, fun same => by dsimp only at same; omega⟩

theorem Knows.moved {p : ObjectPool} {m : Local} (knows : p.Knows m) (node : Option Nat) :
    Knows { p with freeHead := ⟨p.freeHead.count + 1, node⟩ } m := by
  cases m with
  | getNext | releaseStore => exact Seen.moved knows node
  | getCas construct count first newNode =>
    have before : count ≤ p.freeHead.count := knows.1.1
    exact ⟨knows.1.moved node, fun same => by dsimp only at same; omega⟩
  | releaseCas => exact ⟨knows.1.moved node, knows.2⟩
  | _ => trivial

/-- Preparing a carried node changes no pointer that another thread has read and still relies
on: those are pointers of the first free node or of a node the other thread carries. -/
theorem Knows.link {p : ObjectPool} {m : Local} {node : Nat} {value : Option Nat} (knows : p.Knows m)
    (inv : Inv p) (mine : Carried p node) (separate : m.transit? ≠ some node) :
    Knows { p with next := Function.update p.next node value } m := by
  cases m with
  | getNext | releaseStore => exact knows
  | getCas construct count first newNode =>
    refine ⟨knows.1, fun same => ?_⟩
    have top := knows.1.2 same
    have different : first ≠ node := by
      rintro rfl
      obtain ⟨xs, free⟩ := inv.list
      have linked := free
      rw [Free, ← top] at linked
      obtain ⟨tail, rfl, _⟩ := linked.cons_inv
      exact mine.not_free _ free (List.mem_cons_self ..)
    exact (Function.update_of_ne different ..).trans (knows.2 same)
  | releaseCas other oldHead =>
    have different : other ≠ node := fun same => separate (congrArg some same)
    exact ⟨knows.1, (Function.update_of_ne different ..).trans knows.2⟩
  | _ => trivial

/-- A step gives a thread a node to carry only from the free list or from the held objects. -/
theorem act_transit {p p' : ObjectPool} {l l' : Local} {c : Choice} (step : act p l c = some (p', l'))
    {n : Nat} (carries : l'.transit? = some n) :
    l.transit? = some n ∨ p.freeHead.node = some n ∨ n ∈ p.held := by
  cases act_cases step with
  | pop construct count node newNode top =>
    right
    left
    cases construct <;> (cases carries; rw [top])
  | releaseObject node holds =>
    cases carries
    exact Or.inr (Or.inr holds)
  | construct | loadTop | link | retryPush => exact Or.inl carries
  | _ => cases carries

theorem Inv.top_free {p : ObjectPool} (inv : Inv p) {n : Nat} (top : p.freeHead.node = some n) :
    ∃ xs, p.Free (n :: xs) := by
  obtain ⟨xs, free⟩ := inv.list
  have linked := free
  rw [Free, top] at linked
  obtain ⟨tail, rfl, _⟩ := linked.cons_inv
  exact ⟨tail, free⟩

theorem act_apart {p p' : ObjectPool} {l l' m : Local} {c : Choice} (inv : Inv p) (there : At p m)
    (apart : Apart l m) (step : act p l c = some (p', l')) : Apart l' m := by
  intro n mine carries
  have carried := there.carried n carries
  rcases act_transit step mine with old | top | holds
  · exact apart n old carries
  · obtain ⟨xs, free⟩ := inv.top_free top
    exact carried.not_free _ free (List.mem_cons_self ..)
  · exact carried.not_held holds

theorem act_other (p : ObjectPool) (l : Local) (c : Choice) (p' : ObjectPool) (l' m : Local)
    (inv : Inv p) (here : At p l) (there : At p m) (apart : Apart l m) (_ : Apart m l)
    (step : act p l c = some (p', l')) : At p' m ∧ Apart l' m ∧ Apart m l' := by
  have separate := act_apart inv there apart step
  refine ⟨?_, separate, fun n theirs mine => separate n mine theirs⟩
  cases act_cases step with
  | releaseObject node =>
    refine ⟨fun n carries => ?_, there.knows⟩
    have carried := there.carried n carries
    exact ⟨carried.lt, carried.not_free, fun still => carried.not_held (List.mem_of_mem_erase still)⟩
  | pop construct count node newNode top =>
    have current := here.knows.2 (by rw [top])
    have moved := there.knows.moved newNode
    rw [top] at moved
    exact ⟨fun n carries => (there.carried n carries).pop top current, moved⟩
  | hold node =>
    refine ⟨fun n carries => ?_, there.knows⟩
    have carried := there.carried n carries
    refine ⟨carried.lt, carried.not_free, fun holds => ?_⟩
    rcases List.mem_cons.mp holds with rfl | old
    · exact apart n rfl carries
    · exact carried.not_held old
  | link node oldHead =>
    have mine := here.carried node rfl
    exact ⟨fun n carries => (there.carried n carries).link inv mine,
      there.knows.link inv mine fun theirs => apart node rfl theirs⟩
  | push node =>
    refine ⟨fun n carries => ?_, there.knows.moved _⟩
    exact (there.carried n carries).push (fun same => apart n (by rw [same]; rfl) carries) here.knows.2 _
  | _ => exact there

theorem outline : Config.Outline act Inv At Apart where
  own := act_own
  other := act_other

/-- A node is on the free list. -/
def OnFree (p : ObjectPool) (n : Nat) : Prop :=
  ∃ xs, p.Free xs ∧ n ∈ xs

/-- No step loses a node, except an exception of the constructor of `T`: a node that the moving thread
could account for before, it can account for after. -/
theorem act_covers {p p' : ObjectPool} {l l' : Local} {c : Choice} (inv : Inv p) (here : At p l)
    (quiet : c ≠ .throw) (step : act p l c = some (p', l')) {n : Nat}
    (place : p.OnFree n ∨ n ∈ p.held ∨ l.transit? = some n) :
    p'.OnFree n ∨ n ∈ p'.held ∨ l'.transit? = some n := by
  cases act_cases step with
  | getObject | constructObject | load | empty | readNext | retryPop | returnNull =>
    rcases place with free | holds | carries
    · exact Or.inl free
    · exact Or.inr (Or.inl holds)
    · cases carries
  | throw => exact absurd rfl quiet
  | construct | loadTop | retryPush => exact place
  | releaseObject node holds =>
    rcases place with free | old | carries
    · exact Or.inl free
    · by_cases same : n = node
      · exact Or.inr (Or.inr (congrArg some same.symm))
      · exact Or.inr (Or.inl ((List.mem_erase_of_ne same).mpr old))
    · cases carries
  | pop construct count node newNode top =>
    have current := here.knows.2 (by rw [top])
    rcases place with ⟨xs, free, member⟩ | old | carries
    · obtain ⟨tail, same⟩ := inv.top_free (by rw [top])
      rw [free.unique same] at member
      rcases List.mem_cons.mp member with rfl | inTail
      · exact Or.inr (Or.inr (by cases construct <;> rfl))
      · exact Or.inl ⟨tail, (pop_free top current).mpr same, inTail⟩
    · exact Or.inr (Or.inl old)
    · cases carries
  | hold node =>
    rcases place with free | old | carries
    · exact Or.inl free
    · exact Or.inr (Or.inl (List.mem_cons_of_mem _ old))
    · cases carries
      exact Or.inr (Or.inl (List.mem_cons_self ..))
  | link node oldHead =>
    rcases place with ⟨xs, free, member⟩ | old | carries
    · exact Or.inl ⟨xs, (link_free inv (here.carried node rfl)).mpr free, member⟩
    · exact Or.inr (Or.inl old)
    · exact Or.inr (Or.inr carries)
  | push node =>
    have linked : p.next node = p.freeHead.node := here.knows.2
    rcases place with ⟨xs, free, member⟩ | old | carries
    · exact Or.inl ⟨node :: xs, (push_free linked).mpr ⟨xs, rfl, free⟩, List.mem_cons_of_mem _ member⟩
    · exact Or.inr (Or.inl old)
    · cases carries
      obtain ⟨xs, free⟩ := inv.list
      exact Or.inl ⟨n :: xs, (push_free linked).mpr ⟨xs, rfl, free⟩, List.mem_cons_self ..⟩

theorem act_capacity {p p' : ObjectPool} {l l' : Local} {c : Choice} (step : act p l c = some (p', l')) :
    p'.capacity = p.capacity := by
  cases act_cases step <;> rfl

variable {τ : Type}

/-- The nodes on the free list, the nodes held by callers and the nodes in transit inside an
operation are disjoint and make up the arena. -/
structure Splits (s : Config τ ObjectPool Local) (free : List Nat) : Prop where
  list : s.shared.Free free
  acyclic : free.Nodup
  held_once : s.shared.held.Nodup
  arena : ∀ n, n < s.shared.capacity ↔
    n ∈ free ∨ n ∈ s.shared.held ∨ ∃ t, (s.thread t).transit? = some n
  free_not_held : ∀ n ∈ free, n ∉ s.shared.held
  transit_apart : ∀ t n, (s.thread t).transit? = some n → n ∉ free ∧ n ∉ s.shared.held
  transit_once : ∀ t u n, (s.thread t).transit? = some n → (s.thread u).transit? = some n → t = u

def Partition (s : Config τ ObjectPool Local) : Prop :=
  ∃ free, Splits s free

variable [DecidableEq τ] {size : UInt32} {p : ObjectPool}

theorem holds (made : create size = some p) {s : Config τ ObjectPool Local} (reach : (machine τ p).Reach s) :
    Config.Holds Inv At Apart s := by
  have base : Config.Holds Inv At Apart (machine τ p).init :=
    ⟨inv_create made, fun _ => .of_none rfl trivial, fun _ _ _ n carries _ => by cases carries⟩
  exact outline.reach base reach

/-- The initial configuration accounts for every node, and so does every later one. -/
theorem arena_covered (made : create size = some p) {s : Config τ ObjectPool Local}
    (reach : (machine τ p).ReachWhen (fun _ e => e.2 ≠ .throw) s) :
    s.shared.capacity = size.toNat ∧ ∀ n, n < size.toNat →
      s.shared.OnFree n ∨ n ∈ s.shared.held ∨ ∃ t, (s.thread t).transit? = some n := by
  induction reach with
  | start =>
    exact ⟨(create_some made).2.1, fun n within => Or.inl ⟨_, create_free made, List.mem_range.mpr within⟩⟩
  | @next s s' e before quiet step ih =>
    obtain ⟨t, c⟩ := e
    obtain ⟨p', l', moved, rfl⟩ := Config.move_eq_some.mp step
    have held := holds made before.reach
    refine ⟨(act_capacity moved).trans ih.1, fun n within => ?_⟩
    have covers := act_covers held.shared (held.thread t) quiet moved (n := n)
    have mine : ∀ place : s.shared.OnFree n ∨ n ∈ s.shared.held ∨ (s.thread t).transit? = some n,
        p'.OnFree n ∨ n ∈ p'.held ∨ ∃ u, (Function.update s.thread t l' u).transit? = some n := by
      intro place
      exact (covers place).imp_right (Or.imp_right (Config.exists_own (P := fun l : Local => l.transit? = some n)))
    rcases ih.2 n within with free | holds | carries
    · exact mine (Or.inl free)
    · exact mine (Or.inr (Or.inl holds))
    · rcases Config.own_or_exists (P := fun l : Local => l.transit? = some n) carries with own | others
      · exact mine (Or.inr (Or.inr own))
      · exact Or.inr (Or.inr others)

theorem partition_of_reach (made : create size = some p) {s : Config τ ObjectPool Local}
    (reach : (machine τ p).ReachWhen (fun _ e => e.2 ≠ .throw) s) : Partition s := by
  have held := holds made reach.reach
  obtain ⟨capacity, covered⟩ := arena_covered made reach
  obtain ⟨xs, free⟩ := held.shared.list
  refine ⟨xs, free, free.nodup, held.shared.held_nodup, fun n => ⟨fun within => ?_, ?_⟩,
    held.shared.apart xs free, fun t n carries => ?_, fun t u n mine theirs => ?_⟩
  · rcases covered n (capacity ▸ within) with ⟨ys, free', member⟩ | rest
    · exact Or.inl (free'.unique free ▸ member)
    · exact Or.inr rest
  · rintro (member | holds | ⟨t, carries⟩)
    · exact held.shared.free_lt xs free n member
    · exact held.shared.held_lt n holds
    · exact ((held.thread t).carried n carries).lt
  · have carried := (held.thread t).carried n carries
    exact ⟨carried.not_free xs free, carried.not_held⟩
  · by_contra different
    exact held.apart t u different n mine theirs

/-- An exception of the constructor of `T` loses the node that was taken for the object: it is not on the free list, no
caller holds it, and no operation carries it any more. -/
theorem throw_not_partition (made : create size = some p) {s s' : Config τ ObjectPool Local} {t : τ}
    (reach : (machine τ p).Reach s) (step : (machine τ p).step s (t, .throw) = some s') : ¬ Partition s' := by
  have held := holds made reach
  obtain ⟨p', l', moved, rfl⟩ := Config.move_eq_some.mp step
  obtain ⟨node, here, rfl, rfl⟩ : ∃ node, s.thread t = .getConstruct node ∧ p' = s.shared ∧ l' = .idle := by
    generalize s.thread t = l at moved
    cases act_cases moved
    exact ⟨_, rfl, rfl, rfl⟩
  have carries : (s.thread t).transit? = some node := by rw [here]; rfl
  have carried := (held.thread t).carried node carries
  rintro ⟨free, splits⟩
  rcases (splits.arena node).mp carried.lt with member | holds | ⟨u, other⟩
  · exact carried.not_free free splits.list member
  · exact carried.not_held holds
  · by_cases same : u = t
    · subst same
      simp [Local.transit?] at other
    · have theirs : (s.thread u).transit? = some node := by simpa [same] using other
      exact held.apart t u (Ne.symm same) node carries theirs

end CyberRT.ObjectPool

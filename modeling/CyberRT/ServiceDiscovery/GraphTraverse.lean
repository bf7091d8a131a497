import CyberRT.ServiceDiscovery.GraphExact
import Mathlib.Logic.Relation

namespace CyberRT
open Concur

inductive FlowDirection
  | unreachable
  | upstream
  | downstream
  deriving DecidableEq

namespace Graph

/-- The keys of the list that are not marked yet. -/
def unmarked (list : AdjacencyList) (visited : Table String Bool) : List String :=
  list.keys.filter fun k => !visited.get k

theorem mark_eq (visited : Table String Bool) (k x : String) :
    (!(Table.get (visited.insert k true) x)) = (decide (x ≠ k) && !visited.get x) := by
  rw [Table.get_insert_eq]
  by_cases same : x = k
  · simp [same]
  · simp [same]

/-- Marking a vertex of the list leaves fewer to mark. -/
theorem unmarked_of_mem {list : AdjacencyList} {visited : Table String Bool} {k : String}
    (member : k ∈ list) (fresh : visited.get k = false) :
    (unmarked (touch list k) (visited.insert k true)).length < (unmarked list visited).length := by
  unfold touch unmarked
  rw [if_pos member]
  simp only [mark_eq]
  rw [← List.filter_filter, List.length_filter_lt_length_iff_exists]
  refine ⟨k, List.mem_filter.mpr ⟨AList.mem_keys.mp member, by simp [fresh]⟩, by simp⟩

/-- A vertex that is not in the list is added to it without successors, already marked. -/
theorem unmarked_of_notMem {list : AdjacencyList} {visited : Table String Bool} {k : String} (absent : k ∉ list) :
    (unmarked (touch list k) (visited.insert k true)).length = (unmarked list visited).length := by
  unfold touch unmarked
  have other : ∀ x ∈ list.keys, x ≠ k := fun x member same => absent (AList.mem_keys.mpr (same ▸ member))
  rw [if_neg absent, AList.keys_insert, List.erase_of_not_mem fun member => other k member rfl]
  simp only [mark_eq, List.filter_cons, ne_eq, not_true, decide_false, Bool.false_and, Bool.false_eq_true, if_false]
  congr 1
  refine List.filter_congr fun x member => ?_
  simp [other x member]

/-- The loop of `LevelTraverse` over the queue `unvisited`. -/
def traverse (target : Vertice) (list : AdjacencyList) (visited : Table String Bool) :
    List Vertice → Table String Bool × AdjacencyList
  | [] => (visited, list)
  | curr :: rest =>
    if visited.get curr.getKey then traverse target list visited rest
    else
      let marked := visited.insert curr.getKey true
      if curr = target then (marked, list)
      else
        let touched := touch list curr.getKey
        traverse target touched marked (rest ++ (touched.get curr.getKey).entries.map fun item => item.2)
termination_by unvisited => ((unmarked list visited).length, unvisited.length)
decreasing_by
  · exact Prod.Lex.right _ (Nat.lt_succ_self _)
  · rename_i fresh _
    by_cases member : curr.getKey ∈ list
    · exact Prod.Lex.left _ _ (unmarked_of_mem member (by simpa using fresh))
    · have none : Table.get (touch list curr.getKey) curr.getKey = ∅ := by
        rw [get_touch, Table.get_of_notMem member]
        rfl
      rw [unmarked_of_notMem member, none]
      exact Prod.Lex.right _ (by simp)

def levelTraverse (g : Graph) (start target : Vertice) : Bool × Graph :=
  let result := traverse target g.list (AList.singleton target.getKey false) [start]
  (result.1.get target.getKey, { g with list := result.2 })

def getDirectionOf (g : Graph) (lhs rhs : Vertice) : FlowDirection × Graph :=
  if lhs.isDummy || rhs.isDummy then (.unreachable, g)
  else if lhs.getKey ∉ g.list ∨ rhs.getKey ∉ g.list then (.unreachable, g)
  else
    let forward := g.levelTraverse lhs rhs
    if forward.1 then (.upstream, forward.2)
    else
      let backward := forward.2.levelTraverse rhs lhs
      if backward.1 then (.downstream, backward.2) else (.unreachable, backward.2)

/-- `d` is the destination of an entry of `s`. -/
def Next (list : AdjacencyList) (s d : Vertice) : Prop :=
  ∃ k, (list.get s.getKey).lookup k = some d

/-- Some path along the entries of the list. -/
def Path (list : AdjacencyList) : Vertice → Vertice → Prop :=
  Relation.ReflTransGen (Next list)

theorem next_touch (list : AdjacencyList) (k : String) : Next (touch list k) = Next list := by
  funext s d
  simp only [Next, get_touch]

theorem mem_successors {list : AdjacencyList} {s d : Vertice} :
    d ∈ (list.get s.getKey).entries.map (fun item => item.2) ↔ Next list s d := by
  simp only [List.mem_map, Sigma.exists, Table.mem_entries_iff, Next]
  constructor
  · rintro ⟨k, x, found, rfl⟩
    exact ⟨k, found⟩
  · rintro ⟨k, found⟩
    exact ⟨k, d, found, rfl⟩

/-- Every successor of a marked vertex is marked or waits in the queue. -/
def Frontier (list : AdjacencyList) (visited : Table String Bool) (unvisited : List Vertice) : Prop :=
  ∀ s d, visited.get s.getKey = true → Next list s d → visited.get d.getKey = true ∨ d ∈ unvisited

/-- A path from a marked vertex to an unmarked one passes through the queue. -/
theorem Frontier.leaves {list : AdjacencyList} {visited : Table String Bool} {unvisited : List Vertice}
    (frontier : Frontier list visited unvisited) {s target : Vertice} (marked : visited.get s.getKey = true)
    (path : Path list s target) (open' : visited.get target.getKey = false) :
    ∃ q ∈ unvisited, visited.get q.getKey = false ∧ Path list q target := by
  induction path using Relation.ReflTransGen.head_induction_on with
  | refl => exact absurd marked (by rw [open']; decide)
  | head step rest ih =>
    rename_i s d
    by_cases next : visited.get d.getKey = true
    · exact ih next
    · refine ⟨d, ?_, by simpa using next, rest⟩
      exact (frontier s d marked step).resolve_left next

theorem traverse_iff {target : Vertice} {list : AdjacencyList} {visited : Table String Bool}
    {unvisited : List Vertice} (frontier : Frontier list visited unvisited)
    (open' : visited.get target.getKey = false) :
    (traverse target list visited unvisited).1.get target.getKey = true ↔ ∃ q ∈ unvisited, Path list q target := by
  fun_induction traverse target list visited unvisited with
  | case1 list visited => simp [open']
  | case2 list visited curr rest marked ih =>
    have later : Frontier list visited rest := by
      intro s d seen step
      rcases frontier s d seen step with seen' | waits
      · exact Or.inl seen'
      · rcases List.mem_cons.mp waits with rfl | waits
        · exact Or.inl marked
        · exact Or.inr waits
    rw [ih later open']
    constructor
    · rintro ⟨q, waits, path⟩
      exact ⟨q, List.mem_cons_of_mem _ waits, path⟩
    · rintro ⟨q, waits, path⟩
      rcases List.mem_cons.mp waits with rfl | waits
      · obtain ⟨q', waits', _, path'⟩ := later.leaves marked path open'
        exact ⟨q', waits', path'⟩
      · exact ⟨q, waits, path⟩
  | case3 list visited rest =>
    refine iff_of_true ?_ ⟨target, List.mem_cons_self .., .refl⟩
    rw [Table.get_insert_eq, if_pos rfl]
  | case4 list visited curr rest fresh marked other touched ih =>
    have here : ∀ v : Vertice, Table.get marked v.getKey = true ↔ v = curr ∨ visited.get v.getKey = true := by
      intro v
      simp only [marked, Table.get_insert_eq, Vertice.getKey_inj]
      by_cases same : v = curr
      · simp [same]
      · simp [same]
    have later : Frontier touched marked (rest ++ (touched.get curr.getKey).entries.map fun item => item.2) := by
      intro s d seen step
      rw [List.mem_append, mem_successors, here]
      rcases (here s).mp seen with rfl | seen
      · exact Or.inr (Or.inr step)
      · rw [next_touch] at step
        rcases frontier s d seen step with seen' | waits
        · exact Or.inl (Or.inr seen')
        · rcases List.mem_cons.mp waits with rfl | waits
          · exact Or.inl (Or.inl rfl)
          · exact Or.inr (Or.inl waits)
    have still : Table.get marked target.getKey = false := by
      rw [← Bool.not_eq_true, here]
      rintro (same | seen)
      · exact other same.symm
      · exact absurd seen (by rw [open']; decide)
    have same : Next touched = Next list := next_touch list curr.getKey
    rw [ih later still, Path, same]
    simp only [List.mem_append, mem_successors, same, List.mem_cons]
    constructor
    · rintro ⟨q, waits | step, path⟩
      · exact ⟨q, Or.inr waits, path⟩
      · exact ⟨curr, Or.inl rfl, .head step path⟩
    · rintro ⟨q, rfl | waits, path⟩
      · rcases path.cases_head with same | ⟨d, step, rest'⟩
        · exact absurd same other
        · exact ⟨d, Or.inr step, rest'⟩
      · exact ⟨q, Or.inl waits, path⟩

theorem levelTraverse_iff (g : Graph) (start target : Vertice) :
    (g.levelTraverse start target).1 = true ↔ Path g.list start target := by
  have frontier : Frontier g.list (AList.singleton target.getKey false) [start] := by
    intro s d seen
    rw [← AList.insert_empty, Table.get_insert_eq] at seen
    split at seen
    · cases seen
    · exact absurd seen (by simp [Table.get_empty])
  rw [levelTraverse, traverse_iff frontier]
  · simp
  · rw [← AList.insert_empty, Table.get_insert_eq, if_pos rfl]

/-- The second vertex is downstream of the first exactly if a path leads to it. The list has a key for
both ends of a path, so the guard on unknown vertices costs nothing. -/
theorem getDirectionOf_upstream {g : Graph} (lhs rhs : Vertice) :
    (g.getDirectionOf lhs rhs).1 = .upstream ↔
      (lhs.isDummy = false ∧ rhs.isDummy = false) ∧ (lhs.getKey ∈ g.list ∧ rhs.getKey ∈ g.list) ∧
        Path g.list lhs rhs := by
  unfold getDirectionOf
  by_cases dummy : (lhs.isDummy || rhs.isDummy) = true
  · rw [if_pos dummy]
    refine iff_of_false nofun ?_
    rintro ⟨⟨left, right⟩, _⟩
    simp [left, right] at dummy
  rw [if_neg dummy]
  simp only [Bool.or_eq_true, not_or, Bool.not_eq_true] at dummy
  by_cases absent : lhs.getKey ∉ g.list ∨ rhs.getKey ∉ g.list
  · rw [if_pos absent]
    refine iff_of_false nofun ?_
    rintro ⟨_, ⟨left, right⟩, _⟩
    exact absent.elim (fun no => no left) (fun no => no right)
  rw [if_neg absent]
  simp only [not_or, not_not] at absent
  by_cases path : (g.levelTraverse lhs rhs).1 = true
  · simp only [path, if_true]
    exact iff_of_true trivial ⟨dummy, absent, (levelTraverse_iff g lhs rhs).mp path⟩
  · simp only [path, if_false, Bool.false_eq_true]
    refine iff_of_false ?_ fun found => path ((levelTraverse_iff g lhs rhs).mpr found.2.2)
    split <;> exact nofun

/-- The destination of every entry has entries of its own, possibly none. -/
def Closed (g : Graph) : Prop :=
  ∀ s k d, g.entry s k = some d → d.getKey ∈ g.list

theorem insertCompleteEdge_mem {g : Graph} {e : Edge} {x : String} :
    x ∈ (g.insertCompleteEdge e).list ↔ x = e.src.getKey ∨ x = e.dst.getKey ∨ x ∈ g.list := by
  unfold insertCompleteEdge
  dsimp only
  rw [AList.mem_insert, mem_touch, mem_touch]
  constructor
  · rintro (src | dst | src | old)
    · exact Or.inl src
    · exact Or.inr (Or.inl dst)
    · exact Or.inl src
    · exact Or.inr (Or.inr old)
  · rintro (src | dst | old)
    · exact Or.inl src
    · exact Or.inr (Or.inl dst)
    · exact Or.inr (Or.inr (Or.inr old))

theorem Closed.insertCompleteEdge {g : Graph} (closed : g.Closed) (e : Edge) : (g.insertCompleteEdge e).Closed := by
  intro s k d found
  rw [insertCompleteEdge_entry] at found
  rw [insertCompleteEdge_mem]
  split at found
  · rw [← Option.some.inj found]
    exact Or.inr (Or.inl rfl)
  · exact Or.inr (Or.inr (closed s k d found))

theorem Closed.deleteCompleteEdge {g : Graph} (closed : g.Closed) (e : Edge) : (g.deleteCompleteEdge e).Closed := by
  intro s k d found
  rw [deleteCompleteEdge_entry] at found
  split at found
  · cases found
  · exact (AList.mem_insert _).mpr (Or.inr (closed s k d found))

theorem Closed.insertAll {g : Graph} (closed : g.Closed) (es : List Edge) :
    (es.foldl Graph.insertCompleteEdge g).Closed :=
  List.foldlRecOn es _ closed fun _ closed e _ => closed.insertCompleteEdge e

theorem Closed.deleteAll {g : Graph} (closed : g.Closed) (es : List Edge) :
    (es.foldl Graph.deleteCompleteEdge g).Closed :=
  List.foldlRecOn es _ closed fun _ closed e _ => closed.deleteCompleteEdge e

theorem Closed.insert {g : Graph} (closed : g.Closed) (e : Edge) : (g.insert e).Closed := by
  have outgoing : ∀ {g : Graph}, g.Closed → (g.insertOutgoingEdge e).Closed := by
    intro g closed
    unfold insertOutgoingEdge
    dsimp only
    split
    · exact closed
    · exact Closed.insertAll (g := g.setSrc _ _) closed _
  have incoming : ∀ {g : Graph}, g.Closed → (g.insertIncomingEdge e).Closed := by
    intro g closed
    unfold insertIncomingEdge
    dsimp only
    split
    · exact closed
    · exact Closed.insertAll (g := g.setDst _ _) closed _
  unfold Graph.insert
  dsimp only
  split
  · exact closed
  have filled : Closed (if e.value ∈ g.edges then g else { g with edges := g.edges.insert e.value default }) := by
    split
    · exact closed
    · exact closed
  generalize (if e.value ∈ g.edges then g else _) = g₀ at filled ⊢
  have first : Closed (if !e.src.isDummy then g₀.insertOutgoingEdge e else g₀) := by
    split
    · exact outgoing filled
    · exact filled
  split
  · exact incoming first
  · exact first

theorem Closed.delete {g : Graph} (closed : g.Closed) (e : Edge) : (g.delete e).Closed := by
  have outgoing : ∀ {g : Graph}, g.Closed → (g.deleteOutgoingEdge e).Closed := by
    intro g closed
    unfold deleteOutgoingEdge
    dsimp only
    split
    · exact closed
    · exact Closed.deleteAll (g := g.setSrc _ _) closed _
  have incoming : ∀ {g : Graph}, g.Closed → (g.deleteIncomingEdge e).Closed := by
    intro g closed
    unfold deleteIncomingEdge
    dsimp only
    split
    · exact closed
    · exact Closed.deleteAll (g := g.setDst _ _) closed _
  unfold Graph.delete
  dsimp only
  split
  · exact closed
  split
  · exact closed
  have first : Closed (if !e.src.isDummy then g.deleteOutgoingEdge e else g) := by
    split
    · exact outgoing closed
    · exact closed
  split
  · exact incoming first
  · exact first

/-- The same graph up to keys without entries. -/
structure Padded (g g' : Graph) : Prop where
  edges : g'.edges = g.edges
  get : ∀ k, g'.list.get k = g.list.get k
  keys : ∀ k, k ∈ g.list → k ∈ g'.list

theorem traverse_list (target : Vertice) (list : AdjacencyList) (visited : Table String Bool)
    (unvisited : List Vertice) :
    (∀ k, (traverse target list visited unvisited).2.get k = list.get k) ∧
      ∀ k, k ∈ list → k ∈ (traverse target list visited unvisited).2 := by
  fun_induction traverse target list visited unvisited with
  | case1 list visited => exact ⟨fun _ => rfl, fun _ => id⟩
  | case2 list visited curr rest marked ih => exact ih
  | case3 list visited rest => exact ⟨fun _ => rfl, fun _ => id⟩
  | case4 list visited curr rest fresh marked other touched ih =>
    refine ⟨fun k => (ih.1 k).trans (get_touch list _ k), fun k member => ih.2 k ?_⟩
    exact mem_touch.mpr (Or.inr member)

theorem levelTraverse_padded (g : Graph) (start target : Vertice) : g.Padded (g.levelTraverse start target).2 :=
  ⟨rfl, (traverse_list ..).1, (traverse_list ..).2⟩

theorem Padded.trans {g g' g'' : Graph} (first : g.Padded g') (second : g'.Padded g'') : g.Padded g'' :=
  ⟨second.edges.trans first.edges, fun k => (second.get k).trans (first.get k),
    fun k member => second.keys k (first.keys k member)⟩

/-- A query for a direction reads the graph, up to keys without entries. -/
theorem getDirectionOf_padded (g : Graph) (lhs rhs : Vertice) : g.Padded (g.getDirectionOf lhs rhs).2 := by
  have same : g.Padded g := ⟨rfl, fun _ => rfl, fun _ => id⟩
  have forward := levelTraverse_padded g lhs rhs
  have backward := forward.trans (levelTraverse_padded _ rhs lhs)
  unfold getDirectionOf
  dsimp only
  split
  · exact same
  split
  · exact same
  split
  · exact forward
  split
  · exact backward
  · exact backward

theorem Padded.source {g g' : Graph} (padded : g.Padded g') (v : String) (s : Vertice) :
    g'.Source v s ↔ g.Source v s := by
  rw [Source, padded.edges, Source]

theorem Padded.dest {g g' : Graph} (padded : g.Padded g') (v : String) (d : Vertice) :
    g'.Dest v d ↔ g.Dest v d := by
  rw [Dest, padded.edges, Dest]

theorem Padded.tracks {g g' : Graph} {i : Incidence} (padded : g.Padded g') (tracks : g.Tracks i) : g'.Tracks i := by
  refine ⟨fun v s => (padded.source v s).trans (tracks.source v s),
    fun v d => (padded.dest v d).trans (tracks.dest v d), ?_⟩
  rw [Keyed, padded.edges]
  exact tracks.keyed

theorem Padded.exact {g g' : Graph} (padded : g.Padded g') (exact : g.Exact) : g'.Exact := by
  intro s k d
  rw [entry, padded.get]
  simp only [Complete, padded.source, padded.dest]
  exact exact s k d

theorem Padded.closed {g g' : Graph} (padded : g.Padded g') (closed : g.Closed) : g'.Closed := by
  intro s k d found
  rw [entry, padded.get] at found
  exact padded.keys _ (closed s k d found)

end Graph

end CyberRT

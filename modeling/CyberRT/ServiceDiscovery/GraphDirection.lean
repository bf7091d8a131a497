import CyberRT.Lib.Loop
import CyberRT.ServiceDiscovery.GraphTraverse

namespace CyberRT.Graph
open Concur
variable {g : Graph}

/-- The graphs that come of insertions, deletions and queries in any order. -/
inductive Built : Graph → Prop
  | empty : Built .empty
  | insert {g : Graph} (e : Edge) : Built g → Built (g.insert e)
  | delete {g : Graph} (e : Edge) : Built g → Built (g.delete e)
  | getDirectionOf {g : Graph} (lhs rhs : Vertice) : Built g → Built (g.getDirectionOf lhs rhs).2

/-- Both ends of an entry have entries of their own, possibly none. -/
theorem Built.closed (built : g.Built) : g.Closed := by
  induction built with
  | empty =>
    intro s k d found
    exact absurd found (by simp [entry, Graph.empty, Table.get_empty, default])
  | insert e _ ih => exact ih.insert e
  | delete e _ ih => exact ih.delete e
  | getDirectionOf lhs rhs _ ih => exact (getDirectionOf_padded _ lhs rhs).closed ih

/-- Where the loop of `LevelTraverse` stands. -/
structure Traversal where
  list : AdjacencyList
  visited : Table String Bool
  unvisited : List Vertice

/-- A round of the loop: the next vertex of the queue is taken. -/
def traverseRound (target : Vertice) (t : Traversal) : Traversal ⊕ (Table String Bool × AdjacencyList) :=
  match t.unvisited with
  | [] => .inr (t.visited, t.list)
  | curr :: rest =>
    if t.visited.get curr.getKey then .inl { t with unvisited := rest }
    else
      let marked := t.visited.insert curr.getKey true
      if curr = target then .inr (marked, t.list)
      else
        let touched := touch t.list curr.getKey
        .inl ⟨touched, marked, rest ++ (touched.get curr.getKey).entries.map fun item => item.2⟩

/-- The loop ends after finitely many rounds, cycles or not, with what `traverse` gives. -/
theorem traverse_returns (target : Vertice) (list : AdjacencyList) (visited : Table String Bool)
    (unvisited : List Vertice) :
    Loop.Returns (fun fuel => Loop.run (fun t => some (traverseRound target t)) fuel ⟨list, visited, unvisited⟩)
      (traverse target list visited unvisited) := by
  refine @Loop.Ends.returns _ _ (fun _ t => some (traverseRound target t)) _ _ ?_
  fun_induction traverse target list visited unvisited with
  | case1 list visited => exact .last (.of_eq fun _ => rfl)
  | case2 list visited curr rest marked ih =>
    have round : traverseRound target ⟨list, visited, curr :: rest⟩ = .inl ⟨list, visited, rest⟩ := if_pos marked
    exact .next (.of_eq fun _ => congrArg some round) ih
  | case3 list visited rest fresh =>
    have round : traverseRound target ⟨list, visited, target :: rest⟩ =
        .inr (visited.insert target.getKey true, list) := (if_neg fresh).trans (if_pos rfl)
    exact .last (.of_eq fun _ => congrArg some round)
  | case4 list visited curr rest fresh marked other touched ih =>
    have round : traverseRound target ⟨list, visited, curr :: rest⟩ =
        .inl ⟨touched, marked, rest ++ (touched.get curr.getKey).entries.map fun item => item.2⟩ :=
      (if_neg fresh).trans (if_neg other)
    exact .next (.of_eq fun _ => congrArg some round) ih

/-- Only entries make paths, so keys without entries make none. -/
theorem Padded.path {g' : Graph} (padded : g.Padded g') : Path g'.list = Path g.list := by
  have same : Next g'.list = Next g.list := by
    funext s d
    simp only [Next, padded.get]
  rw [Path, Path, same]

/-- The list knows both ends of a path between different vertices. -/
theorem Closed.mem_of_path (closed : g.Closed) {s d : Vertice} (path : Path g.list s d) (different : s ≠ d) :
    s.getKey ∈ g.list ∧ d.getKey ∈ g.list := by
  constructor
  · obtain ⟨next, ⟨k, found⟩, _⟩ := path.cases_head.resolve_left different
    by_contra absent
    rw [Table.get_of_notMem absent] at found
    exact absurd found (by simp [default])
  · obtain ⟨last, _, ⟨k, found⟩⟩ := path.cases_tail.resolve_left (Ne.symm different)
    exact closed _ k d found

theorem getDirectionOf_eq (closed : g.Closed) {lhs rhs : Vertice} (left : lhs.isDummy = false)
    (right : rhs.isDummy = false) (different : lhs ≠ rhs) [Decidable (Path g.list lhs rhs)]
    [Decidable (Path g.list rhs lhs)] :
    (g.getDirectionOf lhs rhs).1 =
      if Path g.list lhs rhs then .upstream
      else if Path g.list rhs lhs then .downstream
      else .unreachable := by
  have forward := levelTraverse_iff g lhs rhs
  have backward := levelTraverse_iff (g.levelTraverse lhs rhs).2 rhs lhs
  rw [(levelTraverse_padded g lhs rhs).path] at backward
  unfold getDirectionOf
  rw [if_neg (by simp [left, right])]
  by_cases absent : lhs.getKey ∉ g.list ∨ rhs.getKey ∉ g.list
  · -- A path would have put both ends into the list.
    rw [if_pos absent, if_neg, if_neg]
    · intro path
      have known := closed.mem_of_path path (Ne.symm different)
      exact absent.elim (fun no => no known.2) fun no => no known.1
    · intro path
      have known := closed.mem_of_path path different
      exact absent.elim (fun no => no known.1) fun no => no known.2
  · rw [if_neg absent]
    simp only [forward, backward]
    split
    · rfl
    · split <;> rfl

/-- In every graph that was built, with cycles or without, `LevelTraverse` ends and finds exactly what is reachable, so
that the direction of two vertices is that of a path between them. -/
theorem direction_of_path (built : g.Built) :
    (∀ start target : Vertice,
      Loop.Returns (fun fuel => Loop.run (fun t => some (traverseRound target t)) fuel
        ⟨g.list, AList.singleton target.getKey false, [start]⟩)
          (traverse target g.list (AList.singleton target.getKey false) [start]) ∧
      ((g.levelTraverse start target).1 = true ↔ Path g.list start target)) ∧
    ∀ lhs rhs : Vertice, lhs ≠ rhs → lhs.isDummy = false → rhs.isDummy = false →
      (Path g.list lhs rhs → (g.getDirectionOf lhs rhs).1 = .upstream) ∧
      (¬ Path g.list lhs rhs → Path g.list rhs lhs → (g.getDirectionOf lhs rhs).1 = .downstream) ∧
      (¬ Path g.list lhs rhs → ¬ Path g.list rhs lhs → (g.getDirectionOf lhs rhs).1 = .unreachable) := by
  refine ⟨fun start target => ⟨traverse_returns .., levelTraverse_iff g start target⟩, ?_⟩
  intro lhs rhs different left right
  classical
  have direction := getDirectionOf_eq built.closed left right different
  refine ⟨fun path => ?_, fun none back => ?_, fun none noBack => ?_⟩
  · rw [direction, if_pos path]
  · rw [direction, if_neg none, if_pos back]
  · rw [direction, if_neg none, if_neg noBack]

/-- Two nodes that write to each other, one of which writes to itself as well. -/
def cyclic : Graph :=
  ((Graph.empty.insert ⟨⟨"a"⟩, ⟨"b"⟩, "ab"⟩).insert ⟨⟨"b"⟩, ⟨"a"⟩, "ba"⟩).insert ⟨⟨"b"⟩, ⟨"b"⟩, "bb"⟩

theorem cyclic_upstream : (cyclic.getDirectionOf ⟨"a"⟩ ⟨"b"⟩).1 = .upstream := by
  have built : cyclic.Built := .insert _ (.insert _ (.insert _ .empty))
  have step : Path cyclic.list ⟨"a"⟩ ⟨"b"⟩ := .single ⟨"ab_b", by decide⟩
  exact ((direction_of_path built).2 ⟨"a"⟩ ⟨"b"⟩ (by decide) (by decide) (by decide)).1 step

end CyberRT.Graph

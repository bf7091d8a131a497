import CyberRT.ServiceDiscovery.GraphEdges
import Mathlib.Data.Finset.Prod
import Mathlib.Data.Finset.Image
import Mathlib.Data.Finset.Card
import Mathlib.Algebra.Order.BigOperators.Group.List

namespace CyberRT
open Concur

inductive GraphOp
  | insert (e : Edge)
  | delete (e : Edge)
  deriving DecidableEq

/-- What the graph is for: the vertices that produce and those that consume each value. -/
structure Incidence where
  sources : Finset (String × Vertice)
  dests : Finset (String × Vertice)
  deriving DecidableEq

namespace Incidence

/-- The source that a valid edge names, if it is not a dummy. -/
def sourceEnd (e : Edge) : Finset (String × Vertice) :=
  if e.isValid && !e.src.isDummy then {(e.value, e.src)} else ∅

def destEnd (e : Edge) : Finset (String × Vertice) :=
  if e.isValid && !e.dst.isDummy then {(e.value, e.dst)} else ∅

def apply (i : Incidence) : GraphOp → Incidence
  | .insert e => ⟨i.sources ∪ sourceEnd e, i.dests ∪ destEnd e⟩
  | .delete e => ⟨i.sources \ sourceEnd e, i.dests \ destEnd e⟩

/-- The incidence after a sequence of operations. -/
def run (ops : List GraphOp) : Incidence :=
  ops.foldl apply ⟨∅, ∅⟩

/-- The edges that join a source and a destination of one value. -/
def complete (i : Incidence) : Finset Edge :=
  ((i.sources ×ˢ i.dests).filter fun p => p.1.1 = p.2.1).image fun p => ⟨p.1.2, p.2.2, p.1.1⟩

theorem mem_complete {i : Incidence} {e : Edge} :
    e ∈ i.complete ↔ (e.value, e.src) ∈ i.sources ∧ (e.value, e.dst) ∈ i.dests := by
  simp only [complete, Finset.mem_image, Finset.mem_filter, Finset.mem_product, Prod.exists]
  constructor
  · rintro ⟨v, s, v', d, ⟨⟨source, dest⟩, rfl⟩, rfl⟩
    exact ⟨source, dest⟩
  · rintro ⟨source, dest⟩
    exact ⟨e.value, e.src, e.value, e.dst, ⟨⟨source, dest⟩, rfl⟩, rfl⟩

/-- No two edges of one source have the same key. -/
def Distinct (i : Incidence) : Prop :=
  ∀ e ∈ i.complete, ∀ e' ∈ i.complete, e.src = e'.src → e.getKey = e'.getKey → e = e'

instance (i : Incidence) : Decidable i.Distinct :=
  inferInstanceAs (Decidable (∀ e ∈ _, ∀ e' ∈ _, _ → _ → _))

theorem Distinct.mono {i i' : Incidence} (distinct : i'.Distinct) (sources : i.sources ⊆ i'.sources)
    (dests : i.dests ⊆ i'.dests) : i.Distinct := by
  have grows : ∀ e ∈ i.complete, e ∈ i'.complete := by
    intro e whole
    obtain ⟨source, dest⟩ := mem_complete.mp whole
    exact mem_complete.mpr ⟨sources source, dests dest⟩
  intro e whole e' whole'
  exact distinct e (grows e whole) e' (grows e' whole')

end Incidence

namespace Graph

def apply (g : Graph) : GraphOp → Graph
  | .insert e => g.insert e
  | .delete e => g.delete e

/-- The graph after a sequence of operations on the empty graph. -/
def run (ops : List GraphOp) : Graph :=
  ops.foldl apply empty

/-- The vertex sets of `edges_` are those of the incidence. -/
structure Tracks (g : Graph) (i : Incidence) : Prop where
  source : ∀ v s, g.Source v s ↔ (v, s) ∈ i.sources
  dest : ∀ v d, g.Dest v d ↔ (v, d) ∈ i.dests
  keyed : g.Keyed

theorem Tracks.complete_iff {g : Graph} {i : Incidence} (tracks : g.Tracks i) (e : Edge) :
    g.Complete e ↔ e ∈ i.complete := by
  rw [Complete, tracks.source, tracks.dest, Incidence.mem_complete]

theorem Tracks.distinct_iff {g : Graph} {i : Incidence} (tracks : g.Tracks i) : g.Distinct ↔ i.Distinct := by
  constructor
  · intro distinct e whole e' whole'
    exact distinct e e' ((tracks.complete_iff e).mpr whole) ((tracks.complete_iff e').mpr whole')
  · intro distinct e e' whole whole'
    exact distinct e ((tracks.complete_iff e).mp whole) e' ((tracks.complete_iff e').mp whole')

variable {g : Graph} {e : Edge}

/-- The destinations iterated over are the destination set of the value. -/
theorem mem_outgoing (keyed : g.Keyed) {e' : Edge} :
    e' ∈ outgoing e (g.edges.get e.value).dst ↔ e'.src = e.src ∧ e'.value = e.value ∧ g.Dest e.value e'.dst := by
  simp only [outgoing, List.mem_map, Sigma.exists, Table.mem_entries_iff]
  constructor
  · rintro ⟨k, d, found, rfl⟩
    have key := keyed _ _ _ (Or.inr found)
    exact ⟨rfl, rfl, Table.mem_iff_lookup.mpr ⟨d, by rw [key, found]⟩⟩
  · rintro ⟨src, value, dest⟩
    obtain ⟨d, found⟩ := Table.mem_iff_lookup.mp dest
    have same := Vertice.getKey_inj.mp (keyed _ _ _ (Or.inr found))
    refine ⟨_, d, found, ?_⟩
    rw [same, ← src, ← value]

theorem mem_incoming (keyed : g.Keyed) {e' : Edge} :
    e' ∈ incoming e (g.edges.get e.value).src ↔ e'.dst = e.dst ∧ e'.value = e.value ∧ g.Source e.value e'.src := by
  simp only [incoming, List.mem_map, Sigma.exists, Table.mem_entries_iff]
  constructor
  · rintro ⟨k, s, found, rfl⟩
    have key := keyed _ _ _ (Or.inl found)
    exact ⟨rfl, rfl, Table.mem_iff_lookup.mpr ⟨s, by rw [key, found]⟩⟩
  · rintro ⟨dst, value, source⟩
    obtain ⟨s, found⟩ := Table.mem_iff_lookup.mp source
    have same := Vertice.getKey_inj.mp (keyed _ _ _ (Or.inl found))
    refine ⟨_, s, found, ?_⟩
    rw [same, ← dst, ← value]

/-- Replacing the source set of a value leaves the other sets as they are. -/
theorem sets_of_setSrc {g' : Graph} {v : String} {src : VerticeSet}
    (edges : g'.edges = (g.setSrc v src).edges) :
    (∀ v' s, g'.Source v' s ↔ if v' = v then s.getKey ∈ src else g.Source v' s) ∧
      (∀ v' d, g'.Dest v' d ↔ g.Dest v' d) ∧
      ((∀ k x, src.lookup k = some x → x.getKey = k) → g.Keyed → g'.Keyed) := by
  unfold Source Dest Keyed
  rw [edges]
  simp only [setSrc, Table.get_insert_eq]
  refine ⟨fun v' s => ?_, fun v' d => ?_, fun own keyed v' k x found => ?_⟩
  · split <;> rfl
  · split
    · rename_i same
      rw [same]
    · rfl
  · split at found
    · rcases found with found | found
      · exact own k x found
      · exact keyed v k x (Or.inr found)
    · exact keyed v' k x found

/-- Replacing the destination set of a value leaves the other sets as they are. -/
theorem sets_of_setDst {g' : Graph} {v : String} {dst : VerticeSet}
    (edges : g'.edges = (g.setDst v dst).edges) :
    (∀ v' s, g'.Source v' s ↔ g.Source v' s) ∧
      (∀ v' d, g'.Dest v' d ↔ if v' = v then d.getKey ∈ dst else g.Dest v' d) ∧
      ((∀ k x, dst.lookup k = some x → x.getKey = k) → g.Keyed → g'.Keyed) := by
  unfold Source Dest Keyed
  rw [edges]
  simp only [setDst, Table.get_insert_eq]
  refine ⟨fun v' s => ?_, fun v' d => ?_, fun own keyed v' k x found => ?_⟩
  · split
    · rename_i same
      rw [same]
    · rfl
  · split <;> rfl
  · split at found
    · rcases found with found | found
      · exact keyed v k x (Or.inl found)
      · exact own k x found
    · exact keyed v' k x found

theorem insert_keyed {m : VerticeSet} (own : ∀ k x, m.lookup k = some x → x.getKey = k) (y : Vertice) :
    ∀ k x, (m.insert y.getKey y).lookup k = some x → x.getKey = k := by
  intro k x found
  rw [Table.lookup_insert_eq] at found
  split at found
  · rename_i same
    rw [same, Option.some.inj found]
  · exact own k x found

theorem erase_keyed {m : VerticeSet} (own : ∀ k x, m.lookup k = some x → x.getKey = k) (y : Vertice) :
    ∀ k x, (m.erase y.getKey).lookup k = some x → x.getKey = k := by
  intro k x found
  rw [Table.lookup_erase_eq] at found
  split at found
  · cases found
  · exact own k x found

/-- What an operation on one end of an edge does: the sets of `edges_` change as `source` and `dest`
say, and `list_` stays exact as long as the edges of the larger graph are distinct. -/
structure Step (g g' larger : Graph) (source dest : String → Vertice → Prop) : Prop where
  source : ∀ v s, g'.Source v s ↔ source v s
  dest : ∀ v d, g'.Dest v d ↔ dest v d
  keyed : g'.Keyed
  exact : larger.Distinct → g.Exact → g'.Exact

theorem insertOutgoingEdge_step (keyed : g.Keyed) (e : Edge) :
    Step g (g.insertOutgoingEdge e) (g.insertOutgoingEdge e)
      (fun v s => g.Source v s ∨ v = e.value ∧ s = e.src) g.Dest := by
  unfold insertOutgoingEdge
  dsimp only
  split
  · rename_i present
    refine ⟨fun v s => ⟨Or.inl, ?_⟩, fun _ _ => Iff.rfl, keyed, fun _ exact => exact⟩
    rintro (old | ⟨rfl, rfl⟩)
    · exact old
    · exact present
  · obtain ⟨source, dest, keep⟩ := sets_of_setSrc (insertAll_edges
      (g.setSrc e.value ((g.edges.get e.value).src.insert e.src.getKey e.src)) (outgoing e (g.edges.get e.value).dst))
    have source' := fun v s => (source v s).trans (c := g.Source v s ∨ v = e.value ∧ s = e.src) <| by
      rw [AList.mem_insert, Vertice.getKey_inj]
      by_cases same : v = e.value
      · subst same
        simp only [if_true, true_and, Source, or_comm]
      · simp only [same, if_false, false_and, or_false]
    refine ⟨source', dest, keep (insert_keyed (fun k x found => keyed _ k x (Or.inl found)) _) keyed, ?_⟩
    intro distinct exact
    refine exact.insertAll rfl distinct fun e' => ?_
    rw [mem_outgoing keyed, Complete, source', dest, Complete]
    constructor
    · rintro ⟨old | ⟨value, src⟩, dest'⟩
      · exact Or.inl ⟨old, dest'⟩
      · exact Or.inr ⟨src, value, value ▸ dest'⟩
    · rintro (old | ⟨src, value, dest'⟩)
      · exact ⟨Or.inl old.1, old.2⟩
      · exact ⟨Or.inr ⟨value, src⟩, value ▸ dest'⟩

theorem insertIncomingEdge_step (keyed : g.Keyed) (e : Edge) :
    Step g (g.insertIncomingEdge e) (g.insertIncomingEdge e)
      g.Source (fun v d => g.Dest v d ∨ v = e.value ∧ d = e.dst) := by
  unfold insertIncomingEdge
  dsimp only
  split
  · rename_i present
    refine ⟨fun _ _ => Iff.rfl, fun v d => ⟨Or.inl, ?_⟩, keyed, fun _ exact => exact⟩
    rintro (old | ⟨rfl, rfl⟩)
    · exact old
    · exact present
  · obtain ⟨source, dest, keep⟩ := sets_of_setDst (insertAll_edges
      (g.setDst e.value ((g.edges.get e.value).dst.insert e.dst.getKey e.dst)) (incoming e (g.edges.get e.value).src))
    have dest' := fun v d => (dest v d).trans (c := g.Dest v d ∨ v = e.value ∧ d = e.dst) <| by
      rw [AList.mem_insert, Vertice.getKey_inj]
      by_cases same : v = e.value
      · subst same
        simp only [if_true, true_and, Dest, or_comm]
      · simp only [same, if_false, false_and, or_false]
    refine ⟨source, dest', keep (insert_keyed (fun k x found => keyed _ k x (Or.inr found)) _) keyed, ?_⟩
    intro distinct exact
    refine exact.insertAll rfl distinct fun e' => ?_
    rw [mem_incoming keyed, Complete, source, dest', Complete]
    constructor
    · rintro ⟨source', old | ⟨value, dst⟩⟩
      · exact Or.inl ⟨source', old⟩
      · exact Or.inr ⟨dst, value, value ▸ source'⟩
    · rintro (old | ⟨dst, value, source'⟩)
      · exact ⟨old.1, Or.inl old.2⟩
      · exact ⟨value ▸ source', Or.inr ⟨value, dst⟩⟩

theorem deleteOutgoingEdge_step (keyed : g.Keyed) (e : Edge) :
    Step g (g.deleteOutgoingEdge e) g (fun v s => g.Source v s ∧ ¬ (v = e.value ∧ s = e.src)) g.Dest := by
  unfold deleteOutgoingEdge
  dsimp only
  split
  · rename_i absent
    refine ⟨fun v s => ⟨fun old => ⟨old, ?_⟩, And.left⟩, fun _ _ => Iff.rfl, keyed, fun _ exact => exact⟩
    rintro ⟨rfl, rfl⟩
    exact absent old
  · rename_i present
    obtain ⟨source, dest, keep⟩ := sets_of_setSrc (deleteAll_edges
      (g.setSrc e.value ((g.edges.get e.value).src.erase e.src.getKey)) (outgoing e (g.edges.get e.value).dst))
    have source' := fun v s => (source v s).trans (c := g.Source v s ∧ ¬ (v = e.value ∧ s = e.src)) <| by
      rw [AList.mem_erase, Ne, Vertice.getKey_inj]
      by_cases same : v = e.value
      · subst same
        simp only [if_true, true_and, Source, and_comm]
      · simp only [same, if_false, false_and, not_false_eq_true, and_true]
    refine ⟨source', dest, keep (erase_keyed (fun k x found => keyed _ k x (Or.inl found)) _) keyed, ?_⟩
    intro distinct exact
    refine exact.deleteAll rfl distinct (fun e' member => ?_) fun e' => ?_
    · obtain ⟨src, value, dest'⟩ := (mem_outgoing keyed).mp member
      rw [Complete, src, value]
      exact ⟨not_not.mp present, dest'⟩
    · rw [mem_outgoing keyed, Complete, source', dest, Complete]
      constructor
      · rintro ⟨⟨old, other⟩, dest'⟩
        exact ⟨⟨old, dest'⟩, fun same => other ⟨same.2.1, same.1⟩⟩
      · rintro ⟨⟨old, dest'⟩, other⟩
        exact ⟨⟨old, fun same => other ⟨same.2, same.1, same.1 ▸ dest'⟩⟩, dest'⟩

theorem deleteIncomingEdge_step (keyed : g.Keyed) (e : Edge) :
    Step g (g.deleteIncomingEdge e) g g.Source (fun v d => g.Dest v d ∧ ¬ (v = e.value ∧ d = e.dst)) := by
  unfold deleteIncomingEdge
  dsimp only
  split
  · rename_i absent
    refine ⟨fun _ _ => Iff.rfl, fun v d => ⟨fun old => ⟨old, ?_⟩, And.left⟩, keyed, fun _ exact => exact⟩
    rintro ⟨rfl, rfl⟩
    exact absent old
  · rename_i present
    obtain ⟨source, dest, keep⟩ := sets_of_setDst (deleteAll_edges
      (g.setDst e.value ((g.edges.get e.value).dst.erase e.dst.getKey)) (incoming e (g.edges.get e.value).src))
    have dest' := fun v d => (dest v d).trans (c := g.Dest v d ∧ ¬ (v = e.value ∧ d = e.dst)) <| by
      rw [AList.mem_erase, Ne, Vertice.getKey_inj]
      by_cases same : v = e.value
      · subst same
        simp only [if_true, true_and, Dest, and_comm]
      · simp only [same, if_false, false_and, not_false_eq_true, and_true]
    refine ⟨source, dest', keep (erase_keyed (fun k x found => keyed _ k x (Or.inr found)) _) keyed, ?_⟩
    intro distinct exact
    refine exact.deleteAll rfl distinct (fun e' member => ?_) fun e' => ?_
    · obtain ⟨dst, value, source'⟩ := (mem_incoming keyed).mp member
      rw [Complete, dst, value]
      exact ⟨source', not_not.mp present⟩
    · rw [mem_incoming keyed, Complete, source, dest', Complete]
      constructor
      · rintro ⟨source', old, other⟩
        exact ⟨⟨source', old⟩, fun same => other ⟨same.2.1, same.1⟩⟩
      · rintro ⟨⟨source', old⟩, other⟩
        exact ⟨source', old, fun same => other ⟨same.2, same.1, same.1 ▸ source'⟩⟩

variable {i : Incidence}

/-- Graphs with the same vertex sets and the same list are tracked and exact together. -/
theorem fill_step (keyed : g.Keyed) (v : String) :
    let g' := if v ∈ g.edges then g else { g with edges := g.edges.insert v default }
    Step g g' g g.Source g.Dest := by
  have same : ∀ v', Table.get (if v ∈ g.edges then g.edges else g.edges.insert v default) v' = g.edges.get v' := by
    intro v'
    split
    · rfl
    · rename_i absent
      rw [Table.get_insert_eq]
      split
      · rename_i here
        rw [here, Table.get_of_notMem absent]
      · rfl
  split
  · exact ⟨fun _ _ => Iff.rfl, fun _ _ => Iff.rfl, keyed, fun _ exact => exact⟩
  · rename_i absent
    simp only [absent, if_false] at same
    have source : ∀ v' s, Source ⟨g.edges.insert v default, g.list⟩ v' s ↔ g.Source v' s := by
      intro v' s
      simp only [Source, same]
    have dest : ∀ v' d, Dest ⟨g.edges.insert v default, g.list⟩ v' d ↔ g.Dest v' d := by
      intro v' d
      simp only [Dest, same]
    refine ⟨source, dest, ?_, fun _ exact s k d => (exact s k d).trans ?_⟩
    · intro v' k x
      simp only [same]
      exact keyed v' k x
    · simp only [Complete, source, dest]

theorem Step.tracks {g' larger : Graph} {source dest : String → Vertice → Prop} {i' : Incidence}
    (step : Step g g' larger source dest) (sources : ∀ v s, source v s ↔ (v, s) ∈ i'.sources)
    (dests : ∀ v d, dest v d ↔ (v, d) ∈ i'.dests) : g'.Tracks i' :=
  ⟨fun v s => (step.source v s).trans (sources v s), fun v d => (step.dest v d).trans (dests v d), step.keyed⟩

/-- The ends of an edge are added or removed one after the other, each unless it is a dummy. -/
theorem Tracks.insertOutgoing (tracks : g.Tracks i) (e : Edge) (named : Bool) :
    let g' := if named then g.insertOutgoingEdge e else g
    let i' : Incidence := ⟨i.sources ∪ if named then {(e.value, e.src)} else ∅, i.dests⟩
    g'.Tracks i' ∧ (i'.Distinct → g.Exact → g'.Exact) := by
  cases named with
  | false => simpa using tracks
  | true =>
    have step := insertOutgoingEdge_step tracks.keyed e
    have tracks' : (g.insertOutgoingEdge e).Tracks ⟨i.sources ∪ {(e.value, e.src)}, i.dests⟩ :=
      step.tracks (fun v s => by simp [tracks.source, or_comm]) tracks.dest
    exact ⟨tracks', fun distinct => step.exact (tracks'.distinct_iff.mpr distinct)⟩

theorem Tracks.insertIncoming (tracks : g.Tracks i) (e : Edge) (named : Bool) :
    let g' := if named then g.insertIncomingEdge e else g
    let i' : Incidence := ⟨i.sources, i.dests ∪ if named then {(e.value, e.dst)} else ∅⟩
    g'.Tracks i' ∧ (i'.Distinct → g.Exact → g'.Exact) := by
  cases named with
  | false => simpa using tracks
  | true =>
    have step := insertIncomingEdge_step tracks.keyed e
    have tracks' : (g.insertIncomingEdge e).Tracks ⟨i.sources, i.dests ∪ {(e.value, e.dst)}⟩ :=
      step.tracks tracks.source (fun v d => by simp [tracks.dest, or_comm])
    exact ⟨tracks', fun distinct => step.exact (tracks'.distinct_iff.mpr distinct)⟩

theorem Tracks.deleteOutgoing (tracks : g.Tracks i) (e : Edge) (named : Bool) :
    let g' := if named then g.deleteOutgoingEdge e else g
    let i' : Incidence := ⟨i.sources \ if named then {(e.value, e.src)} else ∅, i.dests⟩
    g'.Tracks i' ∧ (i.Distinct → g.Exact → g'.Exact) := by
  cases named with
  | false => simpa using tracks
  | true =>
    have step := deleteOutgoingEdge_step tracks.keyed e
    exact ⟨step.tracks (fun v s => by simp [tracks.source]) tracks.dest,
      fun distinct => step.exact (tracks.distinct_iff.mpr distinct)⟩

theorem Tracks.deleteIncoming (tracks : g.Tracks i) (e : Edge) (named : Bool) :
    let g' := if named then g.deleteIncomingEdge e else g
    let i' : Incidence := ⟨i.sources, i.dests \ if named then {(e.value, e.dst)} else ∅⟩
    g'.Tracks i' ∧ (i.Distinct → g.Exact → g'.Exact) := by
  cases named with
  | false => simpa using tracks
  | true =>
    have step := deleteIncomingEdge_step tracks.keyed e
    exact ⟨step.tracks tracks.source (fun v d => by simp [tracks.dest]),
      fun distinct => step.exact (tracks.distinct_iff.mpr distinct)⟩

/-- `Insert` adds the ends of a valid edge, and keeps `list_` exact if the edges are then distinct. -/
theorem Tracks.insert (tracks : g.Tracks i) (e : Edge) :
    (g.insert e).Tracks (i.apply (.insert e)) ∧
      ((i.apply (.insert e)).Distinct → g.Exact → (g.insert e).Exact) := by
  unfold Graph.insert Incidence.apply Incidence.sourceEnd Incidence.destEnd
  by_cases valid : e.isValid = true
  · simp only [valid, Bool.not_true, Bool.false_eq_true, if_false, Bool.true_and]
    have filled := fill_step tracks.keyed e.value
    generalize (if e.value ∈ g.edges then g else _) = g₀ at filled ⊢
    have tracks₀ := filled.tracks tracks.source tracks.dest
    obtain ⟨tracks₁, exact₁⟩ := tracks₀.insertOutgoing e (!e.src.isDummy)
    obtain ⟨tracks₂, exact₂⟩ := tracks₁.insertIncoming e (!e.dst.isDummy)
    refine ⟨tracks₂, fun distinct exact => exact₂ distinct (exact₁ ?_ (filled.exact ?_ exact))⟩
    · exact distinct.mono subset_rfl Finset.subset_union_left
    · exact tracks.distinct_iff.mpr (distinct.mono Finset.subset_union_left Finset.subset_union_left)
  · simp only [valid, Bool.not_false, if_true, Bool.false_and, Bool.false_eq_true, if_false, Finset.union_empty]
    exact ⟨tracks, fun _ exact => exact⟩

/-- `Delete` returns early for a value without vertices; so would its two halves. -/
theorem delete_eq (g : Graph) {e : Edge} (valid : e.isValid = true) :
    g.delete e =
      let g' := if !e.src.isDummy then g.deleteOutgoingEdge e else g
      if !e.dst.isDummy then g'.deleteIncomingEdge e else g' := by
  unfold delete
  by_cases known : e.value ∈ g.edges
  · simp only [valid, known, Bool.not_true, Bool.false_eq_true, if_false, not_true]
  · have none := Table.get_of_notMem known
    have source : e.src.getKey ∉ (g.edges.get e.value).src := none ▸ AList.notMem_empty _
    have dest : e.dst.getKey ∉ (g.edges.get e.value).dst := none ▸ AList.notMem_empty _
    simp only [valid, known, deleteOutgoingEdge, deleteIncomingEdge, source, dest, Bool.not_true,
      Bool.false_eq_true, not_false_eq_true, if_true, ite_self]

theorem Tracks.delete (tracks : g.Tracks i) (e : Edge) :
    (g.delete e).Tracks (i.apply (.delete e)) ∧ (i.Distinct → g.Exact → (g.delete e).Exact) := by
  unfold Incidence.apply Incidence.sourceEnd Incidence.destEnd
  by_cases valid : e.isValid = true
  · rw [delete_eq g valid]
    simp only [valid, Bool.true_and]
    obtain ⟨tracks₁, exact₁⟩ := tracks.deleteOutgoing e (!e.src.isDummy)
    obtain ⟨tracks₂, exact₂⟩ := tracks₁.deleteIncoming e (!e.dst.isDummy)
    refine ⟨tracks₂, fun distinct exact => exact₂ ?_ (exact₁ distinct exact)⟩
    exact distinct.mono Finset.sdiff_subset subset_rfl
  · simp only [Graph.delete, valid, Bool.not_false, if_true, Bool.false_and, Bool.false_eq_true, if_false,
      Finset.sdiff_empty]
    exact ⟨tracks, fun _ exact => exact⟩

theorem empty_tracks : empty.Tracks ⟨∅, ∅⟩ :=
  ⟨fun v s => by simp [Source, empty, Table.get_empty, default],
    fun v d => by simp [Dest, empty, Table.get_empty, default],
    fun v k x found => by simp [empty, Table.get_empty, default] at found⟩

theorem run_tracks (ops : List GraphOp) : (run ops).Tracks (Incidence.run ops) := by
  induction ops using List.reverseRecOn with
  | nil => exact empty_tracks
  | append_singleton ops op ih =>
    rw [run, Incidence.run, List.foldl_concat, List.foldl_concat]
    cases op with
    | insert e => exact (ih.insert e).1
    | delete e => exact (ih.delete e).1

theorem empty_exact : empty.Exact := by
  intro s k d
  simp [entry, empty, Table.get_empty, default, Complete, Source]

/-- `list_` is exact after operations during which the edges stay distinct. -/
theorem run_exact {ops : List GraphOp} (distinct : ∀ pre, pre <+: ops → (Incidence.run pre).Distinct) :
    (run ops).Exact := by
  induction ops using List.reverseRecOn with
  | nil => exact empty_exact
  | append_singleton ops op ih =>
    have before := ih fun pre early => distinct pre (early.trans (List.prefix_append ops [op]))
    have tracks := run_tracks ops
    have after := distinct _ (List.prefix_refl _)
    rw [Incidence.run, List.foldl_concat] at after
    rw [run, List.foldl_concat]
    cases op with
    | insert e => exact (tracks.insert e).2 after before
    | delete e => exact (tracks.delete e).2 (distinct ops (List.prefix_append ops [_])) before

end Graph

end CyberRT

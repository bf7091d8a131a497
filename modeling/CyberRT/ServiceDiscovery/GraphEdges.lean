import CyberRT.ServiceDiscovery.Graph

namespace CyberRT.Graph
open Concur

/-- `s` is in the source set of `edges_[v]`. -/
def Source (g : Graph) (v : String) (s : Vertice) : Prop :=
  s.getKey ∈ (g.edges.get v).src

/-- `d` is in the destination set of `edges_[v]`. -/
def Dest (g : Graph) (v : String) (d : Vertice) : Prop :=
  d.getKey ∈ (g.edges.get v).dst

/-- Both ends of the edge are known. -/
def Complete (g : Graph) (e : Edge) : Prop :=
  g.Source e.value e.src ∧ g.Dest e.value e.dst

/-- The vertex stored in `list_` for a source under the key of an edge. -/
def entry (g : Graph) (src key : String) : Option Vertice :=
  (g.list.get src).lookup key

/-- `list_` holds the edge: its source has an entry under its key, and the entry is its destination. -/
def Holds (g : Graph) (e : Edge) : Prop :=
  g.entry e.src.getKey e.getKey = some e.dst

/-- The vertex sets of `edges_` file each vertex under its own key. -/
def Keyed (g : Graph) : Prop :=
  ∀ v k x, ((g.edges.get v).src.lookup k = some x ∨ (g.edges.get v).dst.lookup k = some x) → x.getKey = k

/-- The entries of `list_` are those of the complete edges and no others. -/
def Exact (g : Graph) : Prop :=
  ∀ s k d, g.entry s k = some d ↔ ∃ e, g.Complete e ∧ e.src.getKey = s ∧ e.getKey = k ∧ e.dst = d

/-- No two complete edges of one source have the same key. -/
def Distinct (g : Graph) : Prop :=
  ∀ e e', g.Complete e → g.Complete e' → e.src = e'.src → e.getKey = e'.getKey → e = e'

/-- The edge writes the entry of `src` under `key`. -/
def Hits (e : Edge) (src key : String) : Prop :=
  e.src.getKey = src ∧ e.getKey = key

instance (e : Edge) (src key : String) : Decidable (Hits e src key) :=
  inferInstanceAs (Decidable (_ ∧ _))

theorem get_touch (list : AdjacencyList) (k x : String) : Table.get (touch list k) x = list.get x := by
  unfold touch
  split
  · rfl
  · rename_i absent
    rw [Table.get_insert_eq]
    split
    · rename_i same
      rw [same, Table.get_of_notMem absent]
      rfl
    · rfl

theorem mem_touch {list : AdjacencyList} {k x : String} : x ∈ touch list k ↔ x = k ∨ x ∈ list := by
  unfold touch
  split
  · rename_i present
    exact ⟨Or.inr, fun either => either.elim (fun same => same ▸ present) id⟩
  · exact AList.mem_insert _

theorem insertCompleteEdge_entry (g : Graph) (e : Edge) (src key : String) :
    (g.insertCompleteEdge e).entry src key = if Hits e src key then some e.dst else g.entry src key := by
  unfold entry insertCompleteEdge
  simp only [Table.get_insert_eq]
  by_cases same : src = e.src.getKey
  · subst same
    rw [if_pos rfl, Table.lookup_insert_eq, get_touch, get_touch]
    simp only [Hits, true_and, eq_comm]
  · rw [if_neg same, get_touch, get_touch, if_neg fun hit => same hit.1.symm]

theorem deleteCompleteEdge_entry (g : Graph) (e : Edge) (src key : String) :
    (g.deleteCompleteEdge e).entry src key = if Hits e src key then none else g.entry src key := by
  unfold entry deleteCompleteEdge
  simp only [Table.get_insert_eq]
  by_cases same : src = e.src.getKey
  · subst same
    rw [if_pos rfl, Table.lookup_erase_eq]
    simp only [Hits, true_and, eq_comm]
  · rw [if_neg same, if_neg fun hit => same hit.1.symm]

theorem insertAll_edges (g : Graph) (es : List Edge) : (es.foldl insertCompleteEdge g).edges = g.edges := by
  induction es generalizing g with
  | nil => rfl
  | cons e es ih => rw [List.foldl_cons, ih, insertCompleteEdge]

theorem deleteAll_edges (g : Graph) (es : List Edge) : (es.foldl deleteCompleteEdge g).edges = g.edges := by
  induction es generalizing g with
  | nil => rfl
  | cons e es ih => rw [List.foldl_cons, ih, deleteCompleteEdge]

theorem insertAll_entry_miss {g : Graph} {es : List Edge} {src key : String}
    (miss : ∀ e ∈ es, ¬ Hits e src key) : (es.foldl insertCompleteEdge g).entry src key = g.entry src key := by
  induction es generalizing g with
  | nil => rfl
  | cons e es ih =>
    obtain ⟨head, tail⟩ := List.forall_mem_cons.mp miss
    rw [List.foldl_cons, ih tail, insertCompleteEdge_entry, if_neg head]

/-- An entry that is written several times keeps the vertex of one of the edges written there. -/
theorem insertAll_entry_hit {g : Graph} {es : List Edge} {src key : String}
    (hit : ∃ e ∈ es, Hits e src key) :
    ∃ e ∈ es, Hits e src key ∧ (es.foldl insertCompleteEdge g).entry src key = some e.dst := by
  induction es generalizing g with
  | nil => exact absurd hit (by simp)
  | cons e es ih =>
    rw [List.foldl_cons]
    by_cases later : ∃ e ∈ es, Hits e src key
    · obtain ⟨e', member, hits, stored⟩ := ih (g := g.insertCompleteEdge e) later
      exact ⟨e', List.mem_cons_of_mem _ member, hits, stored⟩
    · have head : Hits e src key := by
        obtain ⟨e', member, hits⟩ := hit
        rcases List.mem_cons.mp member with rfl | tail
        · exact hits
        · exact absurd ⟨e', tail, hits⟩ later
      refine ⟨e, List.mem_cons_self .., head, ?_⟩
      rw [insertAll_entry_miss fun e' member hits => later ⟨e', member, hits⟩, insertCompleteEdge_entry,
        if_pos head]

theorem deleteAll_entry (g : Graph) (es : List Edge) (src key : String) :
    (es.foldl deleteCompleteEdge g).entry src key =
      if ∃ e ∈ es, Hits e src key then none else g.entry src key := by
  induction es generalizing g with
  | nil => simp
  | cons e es ih =>
    rw [List.foldl_cons, ih, deleteCompleteEdge_entry]
    by_cases head : Hits e src key
    · simp [head]
    · simp [head]

variable {g base : Graph} {es : List Edge}

/-- New complete edges keep `list_` exact if no two complete edges then share an entry. -/
theorem Exact.insertAll (exact : g.Exact) (list : base.list = g.list)
    (distinct : (es.foldl insertCompleteEdge base).Distinct)
    (complete : ∀ e, (es.foldl insertCompleteEdge base).Complete e ↔ g.Complete e ∨ e ∈ es) :
    (es.foldl insertCompleteEdge base).Exact := by
  intro s k d
  by_cases hit : ∃ e ∈ es, Hits e s k
  · obtain ⟨e, member, ⟨src, key⟩, atEntry⟩ := insertAll_entry_hit (g := base) hit
    rw [atEntry]
    constructor
    · intro found
      exact ⟨e, (complete e).mpr (Or.inr member), src, key, Option.some.inj found⟩
    · rintro ⟨e', whole, src', key', rfl⟩
      have same := distinct e e' ((complete e).mpr (Or.inr member)) whole
        (Vertice.getKey_inj.mp (src.trans src'.symm)) (key.trans key'.symm)
      rw [same]
  · rw [insertAll_entry_miss fun e member hits => hit ⟨e, member, hits⟩, entry, list]
    refine (exact s k d).trans ⟨?_, ?_⟩
    · rintro ⟨e, whole, found⟩
      exact ⟨e, (complete e).mpr (Or.inl whole), found⟩
    · rintro ⟨e, whole, src, key, dst⟩
      rcases (complete e).mp whole with old | member
      · exact ⟨e, old, src, key, dst⟩
      · exact absurd ⟨e, member, src, key⟩ hit

/-- Removing complete edges keeps `list_` exact if no two of the edges before shared an entry. -/
theorem Exact.deleteAll (exact : g.Exact) (list : base.list = g.list) (distinct : g.Distinct)
    (removed : ∀ e ∈ es, g.Complete e)
    (complete : ∀ e, (es.foldl deleteCompleteEdge base).Complete e ↔ g.Complete e ∧ e ∉ es) :
    (es.foldl deleteCompleteEdge base).Exact := by
  intro s k d
  rw [deleteAll_entry]
  by_cases hit : ∃ e ∈ es, Hits e s k
  · obtain ⟨e, member, src, key⟩ := hit
    rw [if_pos ⟨e, member, src, key⟩]
    refine ⟨fun none => absurd none (by simp), ?_⟩
    rintro ⟨e', whole, src', key', rfl⟩
    obtain ⟨old, kept⟩ := (complete e').mp whole
    have same := distinct e e' (removed e member) old
      (Vertice.getKey_inj.mp (src.trans src'.symm)) (key.trans key'.symm)
    exact absurd (same ▸ member) kept
  · rw [if_neg hit, entry, list]
    refine (exact s k d).trans ⟨?_, ?_⟩
    · rintro ⟨e, whole, src, key, dst⟩
      exact ⟨e, (complete e).mpr ⟨whole, fun member => hit ⟨e, member, src, key⟩⟩, src, key, dst⟩
    · rintro ⟨e, whole, found⟩
      exact ⟨e, ((complete e).mp whole).1, found⟩

/-- In an exact list the edges held are the complete ones. -/
theorem Exact.holds_iff (exact : g.Exact) (e : Edge) : g.Holds e ↔ g.Complete e := by
  unfold Holds
  rw [exact]
  constructor
  · rintro ⟨e', whole, src, key, dst⟩
    have value := Edge.value_of_getKey key dst
    have same : e' = e := by
      cases e
      cases e'
      simp only [Edge.mk.injEq]
      exact ⟨Vertice.getKey_inj.mp src, dst, value⟩
    exact same ▸ whole
  · intro whole
    exact ⟨e, whole, rfl, rfl, rfl⟩

/-- A list that holds every complete edge gives each of them an entry of its own. -/
theorem distinct_of_holds (holds : ∀ e, g.Complete e → g.Holds e) : g.Distinct := by
  intro e e' whole whole' src key
  have first := holds e whole
  have second := holds e' whole'
  unfold Holds at first second
  rw [← src, ← key, first] at second
  have dst := Option.some.inj second
  cases e
  cases e'
  simp only [Edge.mk.injEq]
  exact ⟨src, dst, Edge.value_of_getKey key dst⟩

end CyberRT.Graph

import CyberRT.ServiceDiscovery.GraphExact
import Mathlib.Algebra.GroupWithZero.Nat

namespace CyberRT.Graph
open Concur
variable {g : Graph} {i : Incidence}

/-- The sum over the values of the number of sources times the number of destinations. -/
def numOfPairs (g : Graph) : Nat :=
  (g.edges.entries.map fun item => item.2.src.size * item.2.dst.size).sum

/-- The adjacency list and the vertex sets per value describe the same edges. -/
structure Agrees (g : Graph) : Prop where
  holds : ∀ e, g.Holds e ↔ g.Complete e
  num : g.getNumOfEdge = g.numOfPairs

/-- The complete edges in the order of `edges_`. -/
def completeEdges (g : Graph) : List Edge :=
  g.edges.entries.flatMap fun item =>
    item.2.src.entries.flatMap fun s => item.2.dst.entries.map fun d => ⟨s.2, d.2, item.1⟩

/-- The entries of `list_`. -/
def allEntries (g : Graph) : List (String × String × Vertice) :=
  g.list.entries.flatMap fun item => item.2.entries.map fun x => (item.1, x.1, x.2)

theorem completeEdges_length (g : Graph) : g.completeEdges.length = g.numOfPairs := by
  simp [completeEdges, numOfPairs, Table.size, List.length_flatMap]

/-- The counter adds up the sizes of the vertex sets and wraps at 32 bits. -/
theorem getNumOfEdge_eq (g : Graph) : g.getNumOfEdge = g.allEntries.length % 2 ^ 32 := by
  have wrap : ∀ (items : List (Sigma fun _ : String => VerticeSet)) (num : Nat), num < 2 ^ 32 →
      items.foldl (fun num item => (num + item.2.size) % 2 ^ 32) num =
        (num + (items.map fun item => item.2.size).sum) % 2 ^ 32 := by
    intro items
    induction items with
    | nil =>
      intro num small
      rw [List.foldl_nil, List.map_nil, List.sum_nil, Nat.add_zero, Nat.mod_eq_of_lt small]
    | cons item items ih =>
      intro num _
      rw [List.foldl_cons, ih _ (Nat.mod_lt _ (by decide)), List.map_cons, List.sum_cons, Nat.mod_add_mod,
        Nat.add_assoc]
  rw [getNumOfEdge, wrap _ _ (by decide), Nat.zero_add]
  simp [allEntries, Table.size, List.length_flatMap]

theorem mem_completeEdges (keyed : g.Keyed) {e : Edge} : e ∈ g.completeEdges ↔ g.Complete e := by
  simp only [completeEdges, List.mem_flatMap, List.mem_map, Sigma.exists, Complete, Source, Dest]
  constructor
  · rintro ⟨v, r, atValue, k, s, source, k', d, dest, rfl⟩
    have found := Table.get_of_mem_entries atValue
    rw [Table.mem_entries_iff] at source dest
    subst found
    have src := keyed _ _ _ (Or.inl source)
    have dst := keyed _ _ _ (Or.inr dest)
    exact ⟨Table.mem_iff_lookup.mpr ⟨s, src ▸ source⟩, Table.mem_iff_lookup.mpr ⟨d, dst ▸ dest⟩⟩
  · rintro ⟨source, dest⟩
    obtain ⟨s, source⟩ := Table.mem_iff_lookup.mp source
    obtain ⟨d, dest⟩ := Table.mem_iff_lookup.mp dest
    have src := Vertice.getKey_inj.mp (keyed _ _ _ (Or.inl source))
    have dst := Vertice.getKey_inj.mp (keyed _ _ _ (Or.inr dest))
    have known : e.value ∈ g.edges := by
      by_contra absent
      rw [Table.get_of_notMem absent] at source
      exact absurd source (by simp [default])
    obtain ⟨r, found⟩ := Table.mem_iff_lookup.mp known
    rw [Table.get_of_lookup found] at source dest
    exact ⟨_, r, Table.mem_entries_iff.mpr found, _, s, Table.mem_entries_iff.mpr source, _, d,
      Table.mem_entries_iff.mpr dest, by rw [src, dst]⟩

theorem mem_allEntries {s k : String} {d : Vertice} :
    (s, k, d) ∈ g.allEntries ↔ g.entry s k = some d := by
  simp only [allEntries, List.mem_flatMap, List.mem_map, Sigma.exists, Prod.mk.injEq, entry]
  constructor
  · rintro ⟨s', set, atSource, k', d', found, rfl, rfl, rfl⟩
    rw [Table.get_of_mem_entries atSource]
    exact Table.mem_entries_iff.mp found
  · intro found
    have known : s ∈ g.list := by
      by_contra absent
      rw [Table.get_of_notMem absent] at found
      exact absurd found (by simp [default])
    obtain ⟨set, atSource⟩ := Table.mem_iff_lookup.mp known
    rw [Table.get_of_lookup atSource] at found
    exact ⟨s, set, Table.mem_entries_iff.mpr atSource, k, d, Table.mem_entries_iff.mpr found, rfl, rfl, rfl⟩

theorem completeEdges_nodup (keyed : g.Keyed) : g.completeEdges.Nodup := by
  refine Table.nodup_flatMap Edge.value ?_ fun r atValue => ?_
  · intro r _ e member
    simp only [List.mem_flatMap, List.mem_map] at member
    obtain ⟨s, _, d, _, rfl⟩ := member
    rfl
  obtain ⟨v, r⟩ := r
  obtain rfl := Table.get_of_mem_entries atValue
  refine Table.nodup_flatMap (fun e => e.src.getKey) ?_ fun s source => ?_
  · intro s source e member
    obtain ⟨d, _, rfl⟩ := List.mem_map.mp member
    exact keyed v _ _ (Or.inl (Table.mem_entries_iff.mp source))
  · refine List.Nodup.map_on ?_ (Table.entries_nodup _)
    intro d dest d' dest' same
    have key := keyed v _ _ (Or.inr (Table.mem_entries_iff.mp dest))
    have key' := keyed v _ _ (Or.inr (Table.mem_entries_iff.mp dest'))
    have vertice : d.2 = d'.2 := (Edge.mk.inj same).2.1
    exact Sigma.ext (by rw [← key, ← key', vertice]) (heq_of_eq vertice)

theorem allEntries_nodup (g : Graph) : g.allEntries.Nodup := by
  refine Table.nodup_flatMap (fun x => x.1) ?_ fun item _ => ?_
  · intro item _ x member
    obtain ⟨y, _, rfl⟩ := List.mem_map.mp member
    rfl
  · refine (Table.entries_nodup item.2).map fun x y same => ?_
    simp only [Prod.mk.injEq, true_and] at same
    exact Sigma.ext same.1 (heq_of_eq same.2)

/-- An exact list with distinct edges has one entry for each complete edge. -/
theorem allEntries_length (keyed : g.Keyed) (exact : g.Exact) (distinct : g.Distinct) :
    g.allEntries.length = g.numOfPairs := by
  have entries : (g.completeEdges.map fun e => (e.src.getKey, e.getKey, e.dst)).Perm g.allEntries := by
    refine (List.perm_ext_iff_of_nodup ?_ g.allEntries_nodup).mpr ?_
    · refine List.Nodup.map_on ?_ (completeEdges_nodup keyed)
      intro e member e' member' same
      simp only [Prod.mk.injEq] at same
      exact distinct e e' ((mem_completeEdges keyed).mp member) ((mem_completeEdges keyed).mp member')
        (Vertice.getKey_inj.mp same.1) same.2.1
    · rintro ⟨s, k, d⟩
      rw [mem_allEntries, exact]
      simp only [List.mem_map, mem_completeEdges keyed, Prod.mk.injEq]
  rw [← entries.length_eq, List.length_map, completeEdges_length]

theorem Tracks.numOfPairs_eq (tracks : g.Tracks i) : g.numOfPairs = i.complete.card := by
  have same : g.completeEdges.toFinset = i.complete := by
    ext e
    rw [List.mem_toFinset, mem_completeEdges tracks.keyed, tracks.complete_iff]
  rw [← completeEdges_length, ← same, List.toFinset_card_of_nodup (completeEdges_nodup tracks.keyed)]

theorem Exact.agrees (exact : g.Exact) (tracks : g.Tracks i) (distinct : i.Distinct)
    (small : i.complete.card < 2 ^ 32) : g.Agrees where
  holds := exact.holds_iff
  num := by
    have total := allEntries_length tracks.keyed exact (tracks.distinct_iff.mpr distinct)
    rw [getNumOfEdge_eq, total, Nat.mod_eq_of_lt (tracks.numOfPairs_eq ▸ small)]

theorem Agrees.distinct (agrees : g.Agrees) (tracks : g.Tracks i) :
    i.Distinct ∧ i.complete.card < 2 ^ 32 := by
  refine ⟨tracks.distinct_iff.mp (distinct_of_holds fun e => (agrees.holds e).mpr), ?_⟩
  rw [← tracks.numOfPairs_eq, ← agrees.num, getNumOfEdge_eq]
  exact Nat.mod_lt _ (by decide)

/-- The adjacency list agrees with the vertex sets after every operation of a sequence exactly if at
no point two edges of one source share a key, and the number of edges fits the counter. -/
theorem agrees_iff_distinct (ops : List GraphOp) :
    (∀ pre, pre <+: ops → (run pre).Agrees) ↔
      ∀ pre, pre <+: ops → (Incidence.run pre).Distinct ∧ (Incidence.run pre).complete.card < 2 ^ 32 := by
  constructor
  · intro agrees pre early
    exact (agrees pre early).distinct (run_tracks pre)
  · intro distinct pre early
    have exact := run_exact fun pre' earlier => (distinct pre' (earlier.trans early)).1
    exact exact.agrees (run_tracks pre) (distinct pre early).1 (distinct pre early).2

/-- Two values that `_` separates differently from their destinations. -/
def collidingOps : List GraphOp :=
  [.insert ⟨⟨"talker"⟩, ⟨"c"⟩, "a_b"⟩, .insert ⟨⟨"talker"⟩, ⟨"b_c"⟩, "a"⟩]

/-- The second edge takes the entry of the first. -/
theorem colliding_not_agrees :
    (run collidingOps).Complete ⟨⟨"talker"⟩, ⟨"c"⟩, "a_b"⟩ ∧
      ¬ (run collidingOps).Holds ⟨⟨"talker"⟩, ⟨"c"⟩, "a_b"⟩ ∧
      (run collidingOps).getNumOfEdge = 1 ∧ (run collidingOps).numOfPairs = 2 ∧
      ¬ (run collidingOps).Agrees := by
  have lost : ¬ (run collidingOps).Holds ⟨⟨"talker"⟩, ⟨"c"⟩, "a_b"⟩ := by
    unfold Holds
    decide
  have complete : (run collidingOps).Complete ⟨⟨"talker"⟩, ⟨"c"⟩, "a_b"⟩ := by
    unfold Complete Source Dest
    decide
  exact ⟨complete, lost, by decide, by decide, fun agrees => lost ((agrees.holds _).mpr complete)⟩

end CyberRT.Graph

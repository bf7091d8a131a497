import CyberRT.Lib.Table

namespace CyberRT
open Concur

structure Vertice where
  value : String
  deriving DecidableEq

namespace Vertice

def isDummy (v : Vertice) : Bool :=
  v.value == ""

def getKey (v : Vertice) : String :=
  v.value

theorem getKey_inj {v w : Vertice} : v.getKey = w.getKey ↔ v = w := by
  cases v
  cases w
  simp only [getKey, Vertice.mk.injEq]

end Vertice

structure Edge where
  src : Vertice
  dst : Vertice
  value : String
  deriving DecidableEq

namespace Edge

def isValid (e : Edge) : Bool :=
  if e.value == "" then false
  else if e.src.isDummy && e.dst.isDummy then false
  else true

def getKey (e : Edge) : String :=
  e.value ++ "_" ++ e.dst.getKey

/-- The key of an edge and its destination give back its value. -/
theorem value_of_getKey {e e' : Edge} (key : e.getKey = e'.getKey) (dst : e.dst = e'.dst) :
    e.value = e'.value := by
  rw [getKey, getKey, dst] at key
  exact (String.append_left_inj _).mp ((String.append_left_inj _).mp key)

end Edge

abbrev VerticeSet := Table String Vertice

abbrev AdjacencyList := Table String VerticeSet

/-- The vertices that produce and that consume one value. -/
structure RelatedVertices where
  src : VerticeSet
  dst : VerticeSet

instance : Inhabited RelatedVertices := ⟨⟨∅, ∅⟩⟩

/-- The node graph. A half edge waits in `edges_` until the other end of its value appears,
a complete edge is also an entry of its source's vertices in `list_`. -/
structure Graph where
  edges : Table String RelatedVertices
  list : AdjacencyList

namespace Graph

def empty : Graph :=
  ⟨∅, ∅⟩

/-- Give a vertex an empty set of entries if it has none yet. -/
def touch (list : AdjacencyList) (k : String) : AdjacencyList :=
  if k ∈ list then list else list.insert k ∅

def insertCompleteEdge (g : Graph) (e : Edge) : Graph :=
  let list := touch g.list e.src.getKey
  let list := touch list e.dst.getKey
  { g with list := list.insert e.src.getKey ((list.get e.src.getKey).insert e.getKey e.dst) }

def deleteCompleteEdge (g : Graph) (e : Edge) : Graph :=
  { g with list := g.list.insert e.src.getKey ((g.list.get e.src.getKey).erase e.getKey) }

/-- Assign the source set of `edges_[v]`. -/
def setSrc (g : Graph) (v : String) (src : VerticeSet) : Graph :=
  { g with edges := g.edges.insert v { g.edges.get v with src } }

/-- Assign the destination set of `edges_[v]`. -/
def setDst (g : Graph) (v : String) (dst : VerticeSet) : Graph :=
  { g with edges := g.edges.insert v { g.edges.get v with dst } }

/-- The edges that a source completes with the destinations of the value, in the order of iteration. -/
def outgoing (e : Edge) (dst : VerticeSet) : List Edge :=
  dst.entries.map fun item => ⟨e.src, item.2, e.value⟩

/-- The edges that a destination completes with the sources of the value. -/
def incoming (e : Edge) (src : VerticeSet) : List Edge :=
  src.entries.map fun item => ⟨item.2, e.dst, e.value⟩

def insertOutgoingEdge (g : Graph) (e : Edge) : Graph :=
  let related := g.edges.get e.value
  if e.src.getKey ∈ related.src then g
  else
    let g := g.setSrc e.value (related.src.insert e.src.getKey e.src)
    (outgoing e related.dst).foldl insertCompleteEdge g

def insertIncomingEdge (g : Graph) (e : Edge) : Graph :=
  let related := g.edges.get e.value
  if e.dst.getKey ∈ related.dst then g
  else
    let g := g.setDst e.value (related.dst.insert e.dst.getKey e.dst)
    (incoming e related.src).foldl insertCompleteEdge g

def deleteOutgoingEdge (g : Graph) (e : Edge) : Graph :=
  let related := g.edges.get e.value
  if e.src.getKey ∉ related.src then g
  else
    let g := g.setSrc e.value (related.src.erase e.src.getKey)
    (outgoing e related.dst).foldl deleteCompleteEdge g

def deleteIncomingEdge (g : Graph) (e : Edge) : Graph :=
  let related := g.edges.get e.value
  if e.dst.getKey ∉ related.dst then g
  else
    let g := g.setDst e.value (related.dst.erase e.dst.getKey)
    (incoming e related.src).foldl deleteCompleteEdge g

def insert (g : Graph) (e : Edge) : Graph :=
  if !e.isValid then g
  else
    let g := if e.value ∈ g.edges then g else { g with edges := g.edges.insert e.value default }
    let g := if !e.src.isDummy then g.insertOutgoingEdge e else g
    if !e.dst.isDummy then g.insertIncomingEdge e else g

def delete (g : Graph) (e : Edge) : Graph :=
  if !e.isValid then g
  else if e.value ∉ g.edges then g
  else
    let g := if !e.src.isDummy then g.deleteOutgoingEdge e else g
    if !e.dst.isDummy then g.deleteIncomingEdge e else g

/-- `num` is a `uint32_t`. -/
def getNumOfEdge (g : Graph) : Nat :=
  g.list.entries.foldl (fun num item => (num + item.2.size) % 2 ^ 32) 0

end Graph

end CyberRT

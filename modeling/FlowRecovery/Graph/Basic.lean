import FlowRecovery.Fault
import FlowRecovery.Script.Operation

/-! Control flow graphs over the positions of a routine. The graph keeps every operation it was
made from and the ascending list of the positions that are still vertices. Edges are kept in the
order of their numbers, which are never used twice, so the edges that leave or enter a vertex are
the edges of the one list that do. -/
namespace FlowRecovery

/-- What an edge says beyond its ends. -/
structure Attrs where
  /-- Ranks the edges that leave one vertex: falling through is lower than jumping. -/
  level : Int64 := 0
  /-- The lower arm of a branch. -/
  isElse : Bool := false
  /-- Closes a cycle. -/
  loop : Bool := false
deriving DecidableEq, Repr, Inhabited

structure Edge where
  id : Nat
  source : Int
  target : Int
  attrs : Attrs := {}
deriving DecidableEq, Repr, Inhabited

structure Vertex where
  id : Int
  op : Operation
deriving Inhabited, Repr

structure Graph where
  ops : List Operation
  live : List Int
  edges : List Edge
  nextEdge : Nat
deriving Inhabited, Repr

namespace Graph

/-- One vertex for each operation and no edge. -/
def ofOps (ops : List Operation) : Graph :=
  { ops, live := (List.range ops.length).map Int.ofNat, edges := [], nextEdge := 0 }

def size (g : Graph) : Nat := g.live.length

def edgeCount (g : Graph) : Nat := g.edges.length

def has (g : Graph) (id : Int) : Bool := g.live.contains id

def op? (g : Graph) (id : Int) : Option Operation :=
  if g.has id then g.ops[id.toNat]? else none

def vertex? (g : Graph) (id : Int) : Option Vertex := (g.op? id).map (⟨id, ·⟩)

/-- The vertex at a place in the order of vertices. -/
def at? (g : Graph) (n : Int) : Option Vertex :=
  if 0 ≤ n then g.live[n.toNat]?.bind g.vertex? else none

/-- The place of a vertex in the order of vertices. -/
def index? (g : Graph) (id : Int) : Option Nat := g.live.idxOf? id

def vertices (g : Graph) : List Vertex := g.live.filterMap g.vertex?

def outs (g : Graph) (id : Int) : List Edge := g.edges.filter (·.source = id)

def ins (g : Graph) (id : Int) : List Edge := g.edges.filter (·.target = id)

def outDegree (g : Graph) (id : Int) : Nat := (g.outs id).length

def inDegree (g : Graph) (id : Int) : Nat := (g.ins id).length

/-- All edges, grouped by the vertex they leave. -/
def edgesBySource (g : Graph) : List Edge := g.live.flatMap g.outs

/-! ### Changing edges -/

def addEdge (g : Graph) (source target : Int) (attrs : Attrs) : Except Fault (Graph × Edge) :=
  if !g.has source then .error (.plain "unknown source vertex")
  else if !g.has target then .error (.plain "unknown target vertex")
  else
    let e : Edge := { id := g.nextEdge, source, target, attrs }
    .ok ({ g with edges := g.edges ++ [e], nextEdge := g.nextEdge + 1 }, e)

/-- Adds an edge whose ends are known to be vertices, and nothing otherwise. -/
def link (g : Graph) (source target : Int) (attrs : Attrs) : Graph :=
  match g.addEdge source target attrs with
  | .ok (g, _) => g
  | .error _ => g

def removeEdge (g : Graph) (id : Nat) : Graph :=
  { g with edges := g.edges.filter (·.id ≠ id) }

/-- Notes that an edge is the lower arm of its branch. -/
def setElse (g : Graph) (id : Nat) : Graph :=
  { g with
    edges := g.edges.map fun e =>
      if e.id = id then { e with attrs := { e.attrs with isElse := true } } else e }

/-! ### Changing vertices -/

/-- Deletes the listed vertices with the edges at them, and counts the deleted ones. -/
def deleteVertices (g : Graph) (ids : List Int) : Graph × Nat :=
  ({ g with
      live := g.live.filter (!ids.contains ·)
      edges := g.edges.filter fun e => !ids.contains e.source && !ids.contains e.target },
    (g.live.filter (ids.contains ·)).length)

/-- Changes the operation of a vertex. -/
def updateOp (g : Graph) (id : Int) (f : Operation → Operation) : Graph :=
  if g.has id then { g with ops := g.ops.modify id.toNat f } else g

def addMarker (g : Graph) (id : Int) (m : Marker) : Graph := g.updateOp id (·.addMarker m)

def clearMarkers (g : Graph) (id : Int) : Graph := g.updateOp id (·.clearMarkers)

/-- Clears the markers of all vertices. -/
def clearAllMarkers (g : Graph) : Graph := g.live.foldl clearMarkers g

def isLabel (g : Graph) (id : Int) : Bool := (g.op? id).any (·.isLabel)

/-! ### What each change does to the edges -/

@[simp] theorem live_removeEdge (g : Graph) (id : Nat) : (g.removeEdge id).live = g.live := rfl

@[simp] theorem live_setElse (g : Graph) (id : Nat) : (g.setElse id).live = g.live := rfl

@[simp] theorem edges_updateOp (g : Graph) (id : Int) (f : Operation → Operation) :
    (g.updateOp id f).edges = g.edges := by
  unfold updateOp; split <;> rfl

@[simp] theorem live_updateOp (g : Graph) (id : Int) (f : Operation → Operation) :
    (g.updateOp id f).live = g.live := by
  unfold updateOp; split <;> rfl

theorem addEdge_ok_iff {g g' : Graph} {s t : Int} {a : Attrs} {e : Edge} :
    g.addEdge s t a = .ok (g', e) ↔
      g.has s ∧ g.has t ∧ e = { id := g.nextEdge, source := s, target := t, attrs := a } ∧
        g' = { g with edges := g.edges ++ [e], nextEdge := g.nextEdge + 1 } := by
  unfold addEdge
  cases hs : g.has s <;> cases ht : g.has t <;> simp
  constructor
  · rintro ⟨rfl, rfl⟩; exact ⟨rfl, rfl⟩
  · rintro ⟨rfl, rfl⟩; exact ⟨rfl, rfl⟩

theorem link_of_has {g : Graph} {s t : Int} (hs : g.has s) (ht : g.has t) (a : Attrs) :
    g.link s t a =
      { g with
        edges := g.edges ++ [{ id := g.nextEdge, source := s, target := t, attrs := a }]
        nextEdge := g.nextEdge + 1 } := by
  simp [link, addEdge, hs, ht]

end Graph

end FlowRecovery

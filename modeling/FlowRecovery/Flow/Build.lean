import FlowRecovery.Flow.Tail
import FlowRecovery.Graph.Reach

/-! The control flow graph of a routine. A depth-first walk starts at the first operation, draws an
edge to every successor in order, and enters each position once, at the flow level of the edge that
met it first. An edge whose target already leads back to its source closes a cycle and says so. The
trailing code that the walk never met is joined afterwards. -/
namespace FlowRecovery

structure BuildStats where
  /-- The length of the routine. -/
  vertices : Nat := 0
  /-- All edges, those of the trailing code included. -/
  edges : Nat := 0
  loopEdges : Nat := 0
  tailEdges : Nat := 0
  /-- Vertices after the first that no edge enters. -/
  unreached : Nat := 0
deriving DecidableEq, Repr, Inhabited

/-- A position that has been entered and its successors that have not been followed yet. -/
structure Frame where
  pos : Int
  pending : List Successor
deriving DecidableEq, Repr

structure Walk where
  graph : Graph
  visited : List Int
  stack : List Frame
deriving Inhabited

namespace Walk

variable (r : Routine) (labels : LabelIndex) (t : Table)

/-- The frame of a position that is entered at `level`. -/
def enter (pos : Int) (level : Int64) : Except Fault Frame :=
  match r.successors? labels t pos level with
  | some (.ok pending) => .ok ⟨pos, pending⟩
  | some (.error f) => .error f
  | none => .ok ⟨pos, []⟩

def edgeFault (source target : Int) (cause : Fault) : Fault :=
  .codedOver .internal
    ("routine " ++ toString r.id ++ ": edge " ++ toString source ++ "->" ++ toString target) cause

/-- Follows the next successor of the top frame, or leaves the frame when none is left. -/
def step (w : Walk) : Except Fault Walk :=
  match w.stack with
  | [] => .ok w
  | ⟨_, []⟩ :: below => .ok { w with stack := below }
  | ⟨pos, s :: pending⟩ :: below =>
    let loop := w.graph.reachable s.pos pos
    match w.graph.addEdge pos s.pos { level := s.level, loop } with
    | .error cause => .error (edgeFault r pos s.pos cause)
    | .ok (g, _) =>
      let rest := ⟨pos, pending⟩ :: below
      if w.visited.contains s.pos then .ok { w with graph := g, stack := rest }
      else do
        let frame ← enter r labels t s.pos s.level
        .ok { graph := g, visited := s.pos :: w.visited, stack := frame :: rest }

def run : (fuel : Nat) → Walk → Except Fault Walk
  | 0, w => .ok w
  | fuel + 1, w => if w.stack.isEmpty then .ok w else do run fuel (← w.step r labels t)

/-- Every position is entered once and has at most two successors, so this many steps finish. -/
def fuel : Nat := 3 * r.ops.length + 1

/-- The walk from the first operation, to its end. -/
def ofRoutine : Except Fault Walk := do
  let frame ← enter r labels t 0 0
  run r labels t (fuel r) { graph := .ofOps r.ops, visited := [0], stack := [frame] }

end Walk

namespace BuildStats

def ofTail (r : Routine) (tail : Tail) : BuildStats :=
  { vertices := r.ops.length
    edges := tail.graph.edgeCount
    loopEdges := (tail.graph.edgesBySource.filter (·.attrs.loop)).length
    tailEdges := tail.added
    unreached := (tail.graph.live.drop 1).countP (tail.graph.inDegree · = 0) }

end BuildStats

namespace Routine

/-- The graph of a routine with its statistics. -/
def build (r : Routine) (t : Table) : Except Fault (Graph × BuildStats) :=
  if r.ops.isEmpty then .ok (.ofOps [], {})
  else do
    let labels ← r.labelIndex
    let walk ← Walk.ofRoutine r labels t
    let tail := Tail.reconnect walk.graph r labels t
    match tail.fault with
    | some f => .error f
    | none => .ok (tail.graph, .ofTail r tail)

/-- What is known of a routine whose graph could not be built. -/
def unbuiltStats (r : Routine) : BuildStats := { vertices := r.ops.length }

end Routine

end FlowRecovery

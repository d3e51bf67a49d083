import FlowRecovery.Graph.Basic
import FlowRecovery.Reduce.Converge
import FlowRecovery.Script.Table

/-! Two-way branches become blocks. Every branch gets a block start and its lower arm is noted; when
its arms meet at a label, the label gets the block end, and unconditional jumps that led there are
bypassed. Bypassed jumps are deleted once all branches have been scanned. -/
namespace FlowRecovery

inductive SkipReason where
  /-- The arms never meet. -/
  | noConvergence
  /-- The arms meet at an operation that cannot carry a block end. -/
  | nonLabelMerge
deriving DecidableEq, Repr

def SkipReason.name : SkipReason → String
  | noConvergence => "no_convergence"
  | nonLabelMerge => "non_label_merge"

/-- A branch that was left as it was. -/
structure Skipped where
  vertex : Int
  id : Nat
  reason : SkipReason
deriving DecidableEq, Repr

structure BranchStats where
  found : Nat := 0
  structured : Nat := 0
  jumpsRemoved : Nat := 0
  skipped : List Skipped := []
deriving DecidableEq, Repr, Inhabited

def BranchStats.count (s : BranchStats) (r : SkipReason) : Nat :=
  (s.skipped.filter (·.reason = r)).length

structure Arms where
  elseArm : Edge
  ifArm : Edge
deriving DecidableEq, Repr

/-- The state of the scan: a fault ends it. -/
structure Structuring where
  graph : Graph
  stats : BranchStats := {}
  /-- Bypassed jumps. -/
  gone : List Int := []
  fault : Option Fault := none
deriving Inhabited

namespace Structuring

def ambiguous (v : Vertex) (complaint : String) : Fault :=
  .coded .ambiguousBranch
    ("branch " ++ v.op.text ++ " at " ++ toString v.id ++ " has " ++ complaint)

/-- The first edge of the lowest level and the first of the highest. -/
def extremes (first : Edge) (rest : List Edge) : Arms :=
  rest.foldl
    (fun a e =>
      { elseArm := if e.attrs.level < a.elseArm.attrs.level then e else a.elseArm
        ifArm := if a.ifArm.attrs.level < e.attrs.level then e else a.ifArm })
    ⟨first, first⟩

/-- The two arms of a branch, told apart by their levels. -/
def arms (g : Graph) (v : Vertex) : Except Fault Arms :=
  match g.outs v.id with
  | first :: second :: rest =>
    let a := extremes first (second :: rest)
    if a.elseArm.attrs.level = a.ifArm.attrs.level then
      .error (ambiguous v ("both arms at flow level " ++ toString a.elseArm.attrs.level.toInt))
    else .ok a
  | few =>
    .error (ambiguous v (toString few.length ++ " out-edges, want 2"))

def skip (s : Structuring) (vertex : Int) (id : Nat) (reason : SkipReason) : Structuring :=
  { s with stats := { s.stats with skipped := s.stats.skipped ++ [⟨vertex, id, reason⟩] } }

/-- Leads the edges into the jump `pred` to `dest`, one after the other. -/
def reroute (g : Graph) (pred dest : Int) : Graph :=
  (g.ins pred).foldl (fun g e => (g.link e.source dest e.attrs).removeEdge e.id) g

/-- Bypasses the vertex that an arm's last edge leaves, if it is a jump still in place. -/
def bypass (t : Table) (dest : Int) (s : Structuring) (arrival : Edge) : Structuring :=
  let pred := arrival.source
  if !s.gone.contains pred && (s.graph.op? pred).any (t.classify · = .jump) then
    { s with
      graph := reroute s.graph pred dest
      gone := s.gone ++ [pred]
      stats := { s.stats with jumpsRemoved := s.stats.jumpsRemoved + 1 } }
  else s

/-- Ends the block `id` at the merge. -/
def close (t : Table) (s : Structuring) (id : Nat) (m : Merge) : Structuring :=
  let s :=
    { s with
      graph := s.graph.addMarker m.vertex (.ifEnd id)
      stats := { s.stats with structured := s.stats.structured + 1 } }
  [m.elseIn, m.ifIn].foldl (bypass t m.vertex) s

/-- Structures the branch at `v`. -/
def branch (t : Table) (s : Structuring) (v : Vertex) : Structuring :=
  let id := s.stats.found
  let s := { s with stats := { s.stats with found := id + 1 } }
  match arms s.graph v with
  | .error f => { s with fault := some f }
  | .ok a =>
    let g := (s.graph.setElse a.elseArm.id).addMarker v.id (.ifStart id)
    let s := { s with graph := g }
    match g.converge v.id a.elseArm a.ifArm with
    | none => s.skip v.id id .noConvergence
    | some m => if g.isLabel m.vertex then s.close t id m else s.skip v.id id .nonLabelMerge

/-- Scans the vertices in order. -/
def scan (t : Table) : List Int → Structuring → Structuring
  | [], s => s
  | id :: rest, s =>
    match s.graph.vertex? id with
    | some v =>
      if t.classify v.op = .branch then
        let s := s.branch t v
        if s.fault.isSome then s else scan t rest s
      else scan t rest s
    | none => scan t rest s

end Structuring

namespace Graph

/-- Structures all branches. A graph with a branch that has no two arms is left as it was when the
branch was met. -/
def structureBranches (g : Graph) (t : Table) : Structuring :=
  let s := Structuring.scan t g.live { graph := g.clearAllMarkers }
  if s.fault.isSome then s else { s with graph := (s.graph.deleteVertices s.gone).1 }

end Graph

end FlowRecovery

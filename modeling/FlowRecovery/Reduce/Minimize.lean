import FlowRecovery.Reduce.Branches
import FlowRecovery.Reduce.Collapse

/-! The passes over a built graph: jump chains are collapsed, then branches are structured. Either
pass can be left out. -/
namespace FlowRecovery

structure Passes where
  skipCollapse : Bool := false
  skipBranches : Bool := false
deriving DecidableEq, Repr, Inhabited

structure ReduceStats where
  chainsCollapsed : Nat := 0
  branches : BranchStats := {}
deriving DecidableEq, Repr, Inhabited

namespace ReduceStats

def unconverged (s : ReduceStats) : Nat := s.branches.count .noConvergence

def nonLabelMerges (s : ReduceStats) : Nat := s.branches.count .nonLabelMerge

def unstructured (s : ReduceStats) : Nat := s.unconverged + s.nonLabelMerges

end ReduceStats

/-- The graph as the passes left it, with what they did; a fault means that they did not finish. -/
structure Reduction where
  graph : Graph
  stats : ReduceStats := {}
  fault : Option Fault := none
deriving Inhabited

namespace Graph

def minimize (g : Graph) (t : Table) (p : Passes) : Reduction :=
  let (g, chainsCollapsed) := if p.skipCollapse then (g, 0) else g.collapse t
  if p.skipBranches then { graph := g, stats := { chainsCollapsed } }
  else
    let s := g.structureBranches t
    { graph := s.graph, stats := { chainsCollapsed, branches := s.stats }, fault := s.fault }

end Graph

end FlowRecovery

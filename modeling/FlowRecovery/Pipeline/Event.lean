import FlowRecovery.Pipeline.Result

/-! What an observer of a run is told, and what it is told of one routine. -/
namespace FlowRecovery

inductive Event where
  | runStart (routines workers : Nat)
  | runComplete (routines failed : Nat)
  | routineStart (id : Int) (ops : Nat)
  | routineComplete (id : Int) (vertices : Nat) (fault : Option Fault)
  | branchUnstructured (id vertex : Int) (reason : SkipReason)
deriving DecidableEq, Repr

namespace Event

/-- A routine starts. -/
def start (r : Routine) : Event := .routineStart r.id r.ops.length

/-- Each branch that was skipped, then the end of the routine. -/
def rest (r : Routine) (rr : RoutineResult) : List Event :=
  rr.reduce.branches.skipped.map (fun s => .branchUnstructured r.id s.vertex s.reason)
    ++ [.routineComplete r.id ((rr.graph.map (·.size)).getD 0) rr.fault]

/-- All that is told of one routine. -/
def trace (r : Routine) (rr : RoutineResult) : List Event := start r :: rest r rr

end Event

end FlowRecovery

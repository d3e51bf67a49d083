import FlowRecovery.Flow.Build
import FlowRecovery.Reduce.Minimize

/-! What a run yields: an entry for each routine, in the order in which they came, and the sums over
the entries that succeeded. -/
namespace FlowRecovery

structure RoutineResult where
  id : Int
  /-- The routine, with the markers that the run left on it. -/
  routine : Option Routine := none
  graph : Option Graph := none
  build : BuildStats := {}
  reduce : ReduceStats := {}
  fault : Option Fault := none
  /-- In nanoseconds. -/
  duration : Int := 0
deriving Inhabited

namespace RoutineResult

def graphIfOk? (rr : RoutineResult) : Option Graph :=
  match rr.fault with
  | none => rr.graph
  | some _ => none

def ok (rr : RoutineResult) : Bool := rr.graphIfOk?.isSome

def typeName (rr : RoutineResult) : String := (rr.routine.map (·.type.name)).getD ""

def linkedTo (rr : RoutineResult) : Int := (rr.routine.map (·.linkedTo)).getD 0

end RoutineResult

structure RunStats where
  routines : Nat := 0
  failed : Nat := 0
  vertices : Nat := 0
  edges : Nat := 0
  loopEdges : Nat := 0
  tailEdges : Nat := 0
  chainsCollapsed : Nat := 0
  branches : Nat := 0
  structured : Nat := 0
  unstructured : Nat := 0
  jumpsRemoved : Nat := 0
deriving DecidableEq, Repr, Inhabited

namespace RunStats

def add (s : RunStats) (rr : RoutineResult) : RunStats :=
  let s := { s with routines := s.routines + 1 }
  match rr.graphIfOk? with
  | none => { s with failed := s.failed + 1 }
  | some g =>
    { s with
      vertices := s.vertices + g.size
      edges := s.edges + g.edgeCount
      loopEdges := s.loopEdges + rr.build.loopEdges
      tailEdges := s.tailEdges + rr.build.tailEdges
      chainsCollapsed := s.chainsCollapsed + rr.reduce.chainsCollapsed
      branches := s.branches + rr.reduce.branches.found
      structured := s.structured + rr.reduce.branches.structured
      unstructured := s.unstructured + rr.reduce.unstructured
      jumpsRemoved := s.jumpsRemoved + rr.reduce.branches.jumpsRemoved }

def ofResults (rs : List RoutineResult) : RunStats := rs.foldl add {}

end RunStats

structure Result where
  routines : List RoutineResult := []
deriving Inhabited

namespace Result

def stats (r : Result) : RunStats := .ofResults r.routines

/-- The first entry with the given id. -/
def find (r : Result) (id : Int) : Except Fault RoutineResult :=
  match r.routines.find? (·.id = id) with
  | some rr => .ok rr
  | none => .error (.coded .routineNotFound ("routine " ++ toString id ++ " not in result"))

end Result

end FlowRecovery

import FlowRecovery.Flow.Successor

/-! Trailing code that no path enters. From the last position back to the third, every operation
that nothing leads to is joined to the one before it, and its label jump, if it has one that can be
taken, is drawn as well. The walk ends at the first operation that something leads to. -/
namespace FlowRecovery

/-- The graph and the number of edges drawn, also when the walk was cut short. -/
structure Tail where
  graph : Graph
  added : Nat := 0
  fault : Option Fault := none
deriving Inhabited

namespace Tail

def tailFault (r : Routine) (source target : Int) (cause : Fault) : Fault :=
  .codedOver .internal
    ("routine " ++ toString r.id ++ ": tail edge " ++ toString source ++ "->" ++ toString target)
    cause

def draw (r : Routine) (s : Tail) (source target : Int) (attrs : Attrs) : Tail :=
  match s.graph.addEdge source target attrs with
  | .ok (g, _) => { s with graph := g, added := s.added + 1 }
  | .error cause => { s with fault := some (tailFault r source target cause) }

/-- The label that the operation at `pos` goes to and that falling through does not reach. -/
def sideLabel? (r : Routine) (t : Table) (pos : Int) : Option Int :=
  (r.opAt? pos).bind fun op =>
    if t.classify op = .jump then none else op.localTarget? r.id

/-- Joins position `pos` to the rest. -/
def attach (r : Routine) (labels : LabelIndex) (t : Table) (s : Tail) (pos : Int) : Tail :=
  let s := s.draw r (pos - 1) pos {}
  if s.fault.isSome then s
  else match sideLabel? r t pos with
    | none => s
    | some label =>
      match r.labelPos labels label with
      | .error f => { s with fault := some f }
      | .ok target =>
        let loop := target < pos && 0 < s.graph.inDegree target
        s.draw r pos target { level := 1, loop }

/-- Works back from position `pos`. -/
def back (r : Routine) (labels : LabelIndex) (t : Table) : (pos : Nat) → Tail → Tail
  | 0, s | 1, s => s
  | pos + 2, s =>
    if 0 < s.graph.inDegree (pos + 2 : Nat) then s
    else
      let s := s.attach r labels t (pos + 2 : Nat)
      if s.fault.isSome then s else back r labels t (pos + 1) s

/-- Joins the trailing code of `r` that nothing in `g` leads to. -/
def reconnect (g : Graph) (r : Routine) (labels : LabelIndex) (t : Table) : Tail :=
  back r labels t (r.ops.length - 1) { graph := g }

end Tail

end FlowRecovery

import FlowRecovery.Graph.Basic
import FlowRecovery.Script.Table

/-! Where control can go after an operation. It falls through unless the operation ends the flow,
it jumps to a label of its own routine, and a hold falls through after all when the next operation
ends the flow. Every successor carries a flow level: falling through keeps it, jumping raises
it. -/
namespace FlowRecovery

structure Successor where
  level : Int64
  pos : Int
deriving DecidableEq, Repr

namespace Routine

def labelPos (r : Routine) (labels : LabelIndex) (label : Int) : Except Fault Int :=
  match labels.find? label with
  | some pos => .ok pos
  | none =>
    .error (.coded .unknownLabel
      ("routine " ++ toString r.id ++ ": jump to label " ++ toString label
        ++ " which does not exist"))

/-- Control goes on to the next operation. -/
def fallsThrough (t : Table) (op : Operation) (next? : Option Operation) : Bool :=
  next?.isSome && !t.endsFlow op

/-- A hold that ends the flow goes on all the same to an operation that ends it. -/
def holdsOn (t : Table) (op : Operation) (next? : Option Operation) : Bool :=
  !fallsThrough t op next? && op.root?.any (t.isHold ·.code.name) && next?.any t.endsFlow

/-- The successors of the operation `op` at `pos`, in the order in which they are followed. -/
def successorsOf (r : Routine) (labels : LabelIndex) (t : Table) (op : Operation) (pos : Int)
    (level : Int64) : Except Fault (List Successor) := do
  let next? := r.opAt? (pos + 1)
  let onward : Successor := ⟨level, pos + 1⟩
  let before := if fallsThrough t op next? then [onward] else []
  let after := if holdsOn t op next? then [onward] else []
  match op.localTarget? r.id with
  | none => .ok (before ++ after)
  | some label =>
    let target ← r.labelPos labels label
    .ok (before ++ ⟨level + 1, target⟩ :: after)

/-- The successors of a position; a position outside the routine has no answer. -/
def successors? (r : Routine) (labels : LabelIndex) (t : Table) (pos : Int) (level : Int64) :
    Option (Except Fault (List Successor)) :=
  (r.opAt? pos).map fun op => r.successorsOf labels t op pos level

end Routine

end FlowRecovery

import FlowRecovery.Value

/-! Operations of a disassembled routine. An operation is an instruction, a label or an instruction
that names a label; recovered blocks are noted on it as markers, which are its only changing
part. -/
namespace FlowRecovery

/-- Where a recovered block starts or ends. -/
inductive Marker where
  | ifStart (id : Int)
  | ifEnd (id : Int)
deriving DecidableEq, Repr

def Marker.text : Marker → String
  | ifStart id => "IfStart(" ++ toString id ++ ")"
  | ifEnd id => "IfEnd(" ++ toString id ++ ")"

structure Opcode where
  id : Int := 0
  name : String
deriving DecidableEq, Repr, Inhabited

structure Instruction where
  /-- Where the instruction stands in the script, in bytes. -/
  offset : Int := 0
  code : Opcode
  params : List Value := []
deriving Inhabited, Repr

structure LabelRef where
  routine : Int
  label : Int
deriving DecidableEq, Repr, Inhabited

inductive Action where
  | plain (root : Instruction)
  | label (id : Int)
  | labelJump (root : Instruction) (target : LabelRef)
deriving Inhabited, Repr

structure Operation where
  action : Action
  markers : List Marker := []
deriving Inhabited, Repr

namespace Operation

def plain (root : Instruction) : Operation := { action := .plain root }

def label (id : Int) : Operation := { action := .label id }

def labelJump (root : Instruction) (target : LabelRef) : Operation :=
  { action := .labelJump root target }

/-- The instruction behind the operation; a label has none. -/
def root? (op : Operation) : Option Instruction :=
  match op.action with
  | .plain root | .labelJump root _ => some root
  | .label _ => none

def label? (op : Operation) : Option Int :=
  match op.action with
  | .label id => some id
  | _ => none

def isLabel (op : Operation) : Bool := op.label?.isSome

/-- The label of its own routine that the operation names. -/
def localTarget? (op : Operation) (routine : Int) : Option Int :=
  match op.action with
  | .labelJump _ target => if target.routine = routine then some target.label else none
  | _ => none

def addMarker (op : Operation) (m : Marker) : Operation :=
  { op with markers := op.markers ++ [m] }

def clearMarkers (op : Operation) : Operation := { op with markers := [] }

@[simp] theorem action_addMarker (op : Operation) (m : Marker) :
    (op.addMarker m).action = op.action := rfl

@[simp] theorem action_clearMarkers (op : Operation) : op.clearMarkers.action = op.action := rfl

def markerText : List Marker → String
  | [] => ""
  | ms => " (" ++ ";".intercalate (ms.map Marker.text) ++ ")"

def actionText : Action → String
  | .plain root =>
    root.code.name ++ "(" ++ ", ".intercalate (root.params.map Value.text) ++ ")"
  | .label id => "@label_" ++ toString id
  | .labelJump root target => root.code.name ++ " -> @label_" ++ toString target.label

def text (op : Operation) : String := actionText op.action ++ markerText op.markers

end Operation

end FlowRecovery

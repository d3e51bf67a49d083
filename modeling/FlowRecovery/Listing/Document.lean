import FlowRecovery.Input
import FlowRecovery.Script.Routine

/-! Listings. A document is what a listing says before it is checked: any field may be missing. A
document stands for routines if every routine has an id of its own and a known type, and every
operation is a label and nothing else, or an instruction with a proper name, whose target, if it has
one, names a label. -/
namespace FlowRecovery

structure TargetDoc where
  routine : Option Int := none
  label : Option Int := none
deriving DecidableEq, Repr, Inhabited

structure OpDoc where
  offset : Int := 0
  op : String := ""
  code : Int := 0
  params : List Value := []
  label : Option Int := none
  target : Option TargetDoc := none
deriving Inhabited, Repr

structure RoutineDoc where
  id : Option Int := none
  type : String := ""
  linkedTo : Int := 0
  ops : List OpDoc := []
deriving Inhabited, Repr

structure Document where
  routines : List RoutineDoc := []
deriving Inhabited, Repr

def invalidListing (message : String) : Fault := .coded .invalidListing message

namespace OpDoc

def operation (d : OpDoc) (routine : Int) : Except Fault Operation :=
  match d.label with
  | some label =>
    if d.op ≠ "" ∨ d.target.isSome then
      .error (invalidListing "label entry must not carry op or target")
    else .ok (.label label)
  | none => do
    Input.checkOpcodeName (Text.Piece.ofString d.op)
    let root : Instruction :=
      { offset := d.offset, code := { id := d.code, name := d.op }, params := d.params }
    match d.target with
    | none => .ok (.plain root)
    | some target =>
      match target.label with
      | none => .error (invalidListing (d.op ++ ": target without label"))
      | some label =>
        .ok (.labelJump root { routine := target.routine.getD routine, label })

end OpDoc

namespace RoutineDoc

/-- The operations from position `pos` on. -/
def operations (routine : Int) : (pos : Nat) → List OpDoc → Except Fault (List Operation)
  | _, [] => .ok []
  | pos, d :: rest =>
    match d.operation routine with
    | .error f =>
      .error (.within ("routine " ++ toString routine ++ " position " ++ toString pos) f)
    | .ok op => do .ok (op :: (← operations routine (pos + 1) rest))

def typeOf (d : RoutineDoc) (id : Int) : Except Fault RoutineType :=
  if d.type = "" then .ok .generic
  else match RoutineType.parse d.type with
    | .ok t => .ok t
    | .error f => .error (.within ("routine " ++ toString id) f)

/-- The routine of the entry number `n`. -/
def routine (d : RoutineDoc) (n : Nat) : Except Fault Routine :=
  match d.id with
  | none => .error (invalidListing ("routine #" ++ toString n ++ ": missing id"))
  | some id => do
    let type ← d.typeOf id
    let ops ← operations id 0 d.ops
    .ok { id, type, linkedTo := d.linkedTo, ops }

end RoutineDoc

namespace Document

/-- The routines from the entry number `n` on; `seen` are the ids before them. -/
def routinesFrom : (n : Nat) → (seen : List Int) → List RoutineDoc → Except Fault (List Routine)
  | _, _, [] => .ok []
  | n, seen, d :: rest => do
    let r ← d.routine n
    if seen.contains r.id then
      .error (invalidListing ("duplicate routine id " ++ toString r.id))
    else .ok (r :: (← routinesFrom (n + 1) (r.id :: seen) rest))

/-- The routines of a document. -/
def read (d : Document) : Except Fault (List Routine) := routinesFrom 0 [] d.routines

end Document

end FlowRecovery

import FlowRecovery.Fault
import FlowRecovery.Script.Operation
import FlowRecovery.Text.Quoted

/-! Routines: a list of operations with an identity. Labels are looked up through an index from
label to position, which exists only if no label is defined twice. -/
namespace FlowRecovery

inductive RoutineType where
  | generic
  | actor
  | object
  | performer
  | coroutine
  /-- A number without a name. -/
  | other (number : Int)
deriving DecidableEq, Repr, Inhabited

namespace RoutineType

def ofNumber : Int → RoutineType
  | 1 => generic
  | 3 => actor
  | 4 => object
  | 5 => performer
  | 9 => coroutine
  | n => other n

def number : RoutineType → Int
  | generic => 1
  | actor => 3
  | object => 4
  | performer => 5
  | coroutine => 9
  | other n => n

def name : RoutineType → String
  | generic => "generic"
  | actor => "actor"
  | object => "object"
  | performer => "performer"
  | coroutine => "coroutine"
  | other n => "RoutineType(" ++ toString n ++ ")"

def named : List RoutineType := [generic, actor, object, performer, coroutine]

def ofName? (s : String) : Option RoutineType := named.find? (·.name = s)

def parse (s : String) : Except Fault RoutineType :=
  match ofName? s with
  | some t => .ok t
  | none => .error (.coded .invalidListing ("unknown routine type " ++ Text.quote s))

end RoutineType

structure Routine where
  id : Int
  type : RoutineType := .generic
  linkedTo : Int := 0
  ops : List Operation := []
deriving Inhabited, Repr

/-- Positions of labels. -/
structure LabelIndex where
  entries : List (Int × Int) := []
deriving DecidableEq, Repr, Inhabited

namespace LabelIndex

def find? (idx : LabelIndex) (label : Int) : Option Int := idx.entries.lookup label

/-- Sets the position of a label, whether it had one or not. -/
def insert (idx : LabelIndex) (label pos : Int) : LabelIndex :=
  ⟨(label, pos) :: idx.entries.filter (·.1 ≠ label)⟩

theorem find?_insert (idx : LabelIndex) (label pos l : Int) :
    (idx.insert label pos).find? l = if l = label then some pos else idx.find? l := by
  by_cases h : l = label
  · subst h
    simp [find?, insert]
  · have hne : (l == label) = false := by simpa using h
    simp only [find?, insert, List.lookup_cons, hne, h, if_false]
    induction idx.entries with
    | nil => rfl
    | cons e rest ih =>
      obtain ⟨a, b⟩ := e
      by_cases he : a = label
      · subst he
        simpa [List.lookup_cons, hne] using ih
      · simp only [List.filter_cons, ne_eq, he, not_false_eq_true, decide_true, if_true,
          List.lookup_cons]
        split <;> simp_all

end LabelIndex

namespace Routine

def opAt? (r : Routine) (pos : Int) : Option Operation :=
  if 0 ≤ pos then r.ops[pos.toNat]? else none

/-- Adds the labels of `ops`, the first of which stands at `pos`. -/
def indexLabels (routine : Int) : (pos : Int) → LabelIndex → List Operation →
    Except Fault LabelIndex
  | _, idx, [] => .ok idx
  | pos, idx, op :: rest =>
    match op.label? with
    | none => indexLabels routine (pos + 1) idx rest
    | some label =>
      match idx.find? label with
      | some earlier =>
        .error (.coded .duplicateLabel
          ("routine " ++ toString routine ++ ": label " ++ toString label ++ " at positions "
            ++ toString earlier ++ " and " ++ toString pos))
      | none => indexLabels routine (pos + 1) (idx.insert label pos) rest

def labelIndex (r : Routine) : Except Fault LabelIndex := indexLabels r.id 0 {} r.ops

end Routine

end FlowRecovery

/-! Edit distance: the least number of insertions, deletions and replacements that turn one list
into another. The distances to all beginnings of the second list are kept as a row, and every
element of the first list makes the next row from the last one. -/
namespace FlowRecovery.Text

variable {α : Type} [DecidableEq α]

/-- The rest of a row, given the entry to its left and the row above. -/
def rowRest (a : α) (left : Nat) : List α → List Nat → List Nat
  | b :: t, corner :: above :: row =>
    let here := if a = b then corner else 1 + min corner (min above left)
    here :: rowRest a here t (above :: row)
  | _, _ => []

def nextRow (t : List α) (row : List Nat) (a : α) : List Nat :=
  let first := row.headD 0 + 1
  first :: rowRest a first t row

def distance (s t : List α) : Nat :=
  (s.foldl (nextRow t) (List.range (t.length + 1))).getLastD 0

end FlowRecovery.Text

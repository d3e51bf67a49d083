import FlowRecovery.Display.Report

/-! Choosing a routine from a list by keys. The list shows a window of as many rows as the screen
has room for; the window follows the cursor when the cursor moves. -/
namespace FlowRecovery

structure Picker where
  routines : List RoutineResult
  cursor : Nat := 0
  /-- The first row of the window. -/
  offset : Nat := 0
  /-- The rows of the window. -/
  height : Nat := 15
  selected : Option RoutineResult := none
deriving Inhabited

namespace Picker

inductive Key where
  | up
  | down
  | enter
  | leave
  | other
deriving DecidableEq, Repr

def Key.ofName : String → Key
  | "up" | "k" => up
  | "down" | "j" => down
  | "enter" => enter
  | "q" | "esc" | "ctrl+c" => leave
  | _ => other

inductive Message where
  | key (k : Key)
  /-- The screen has a new height. -/
  | resize (lines : Int64)
deriving DecidableEq, Repr

def ofRoutines (routines : List RoutineResult) : Picker := { routines }

/-- Six lines of a screen are no rows, and a window has at least five rows. -/
def rowsOf (lines : Int64) : Nat := if lines - 6 < 5 then 5 else (lines - 6).toInt.toNat

def moveUp (p : Picker) : Picker :=
  if p.cursor = 0 then p
  else { p with cursor := p.cursor - 1, offset := min p.offset (p.cursor - 1) }

def moveDown (p : Picker) : Picker :=
  let next := p.cursor + 1
  if p.routines.length ≤ next then p
  else
    { p with
      cursor := next
      offset := if p.offset + p.height ≤ next then next - p.height + 1 else p.offset }

/-- What a message makes of a picker, and whether it is done then. -/
def update (p : Picker) : Message → Picker × Bool
  | .key .up => (p.moveUp, false)
  | .key .down => (p.moveDown, false)
  | .key .enter =>
    match p.routines[p.cursor]? with
    | none => (p, false)
    | some rr => ({ p with selected := some rr }, true)
  | .key .leave => (p, true)
  | .key .other => (p, false)
  | .resize lines => ({ p with height := rowsOf lines }, false)

/-- The routines in the window, with their positions. -/
def window (p : Picker) : List (RoutineResult × Nat) :=
  ((p.routines.drop p.offset).take p.height).zipIdx p.offset

def grid (p : Picker) : Display.Grid :=
  { header := "" :: Display.columns
    rows := p.window.map fun (rr, i) => (if i = p.cursor then "▸ " else "  ") :: rr.cells }

def view (p : Picker) : String :=
  "\n".intercalate
    ["Select Routine", "↑/↓ navigate  ⏎ select  q quit", "", p.grid.render, "",
      "  [" ++ toString (p.cursor + 1) ++ "/" ++ toString p.routines.length ++ "]"]

end Picker

/-- How a user left the choice of a routine. -/
inductive Pick where
  | routine (id : Int)
  | nothing
  | failed (message : String)
deriving DecidableEq, Repr

/-- What was chosen when the picker was left. -/
def Picker.choice (p : Picker) : Pick :=
  match p.selected with
  | some rr => .routine rr.id
  | none => .nothing

end FlowRecovery

import FlowRecovery.Display.Grid
import FlowRecovery.Duration
import FlowRecovery.Pipeline.Result
import FlowRecovery.Script.Table

/-! What a person sees of a result: a row for each routine, the graph of one routine, the sums of a
run, and the opcode table. -/
namespace FlowRecovery

namespace RoutineResult

/-- The cells of one routine; one that failed shows why. -/
def cells (rr : RoutineResult) : List String :=
  [toString rr.id, rr.typeName] ++
    match rr.graphIfOk? with
    | none => ["—", "—", "—", (rr.fault.map (·.text)).getD "failed"]
    | some g =>
      [toString g.size, toString g.edgeCount,
        toString rr.reduce.branches.structured ++ "/" ++ toString rr.reduce.branches.found,
        Duration.text (Duration.roundToMicros rr.duration)]

end RoutineResult

namespace Display

def columns : List String := ["Routine", "Type", "Vertices", "Edges", "Structured", "Time"]

def resultGrid (r : Result) : Grid := { header := columns, rows := r.routines.map (·.cells) }

def edgeLine (e : Edge) : String :=
  "        → " ++ toString e.target ++ "  level=" ++ toString e.attrs.level.toInt
    ++ (if e.attrs.isElse then " else" else "") ++ (if e.attrs.loop then " loop" else "")

/-- A vertex, then the edges that leave it. -/
def vertexLines (g : Graph) (v : Vertex) : List String :=
  let text := v.op.text
  (padLeft 4 (toString v.id) ++ "  " ++ (if v.op.markers.isEmpty then text else block 0 text))
    :: (g.outs v.id).map edgeLine

def graphLines (g : Graph) : List String := g.vertices.flatMap (vertexLines g)

def success (s : String) : String := "✓ " ++ s

def failure (s : String) : String := "✗ " ++ s

def warning (s : String) : String := "! " ++ block 0 s

def info (s : String) : String := "› " ++ s

def statsLine (s : RunStats) : String :=
  "  " ++ " · ".intercalate
    ([toString s.routines ++ " routines", toString s.vertices ++ " vertices",
        toString s.edges ++ " edges",
        toString s.structured ++ "/" ++ toString s.branches ++ " branches structured"]
      ++ (if s.chainsCollapsed = 0 then []
        else [toString s.chainsCollapsed ++ " chains collapsed"]))

/-- A routine that failed, or that kept branches without a structure. -/
def complaint? (rr : RoutineResult) : Option String :=
  let name := "routine " ++ toString rr.id ++ ": "
  if !rr.ok then some (failure (name ++ (rr.fault.map (·.userMessage)).getD ""))
  else if rr.reduce.unstructured = 0 then none
  else some (warning (name ++ toString rr.reduce.unstructured ++ " of "
    ++ toString rr.reduce.branches.found ++ " branches left unstructured"))

/-- The complaints of a run, and the grid if there is one. -/
def summaryLines (r : Result) : List String :=
  r.routines.filterMap complaint? ++
    if r.stats.failed = 0 ∧ r.stats.unstructured = 0 then [] else (resultGrid r).lines

def skippedLine (s : Skipped) : String :=
  warning ("branch " ++ toString s.id ++ " at " ++ toString s.vertex ++ " left unstructured ("
    ++ s.reason.name ++ ")")

/-- One routine: its name, then its graph or why it has none. -/
def routineLines (rr : RoutineResult) : List String :=
  ("Routine " ++ toString rr.id ++ " " ++ rr.typeName) ::
    match rr.graphIfOk? with
    | none => [failure ((rr.fault.map (·.userMessage)).getD "")]
    | some g => graphLines g ++ rr.reduce.branches.skipped.map skippedLine

def tableLines (t : Table) : List String :=
  let line (name : String) (ops : List String) : String :=
    block 10 name ++ " " ++ block 0 (", ".intercalate ops)
  [line "hold" [t.hold], line "terminal" t.terminals, line "branch" t.branches,
    line "jump" t.jumps]

end Display

end FlowRecovery

import FlowRecovery.Json.Writer
import FlowRecovery.Pipeline.Result

/-! The result of a run as a JSON document: every routine with its metrics, its vertices and its
edges. A field that would hold zero, an empty text or an empty list is left out where the format
says so. Operands without a JSON form make the whole document impossible, and the first of them is
what the encoder complains about. -/
namespace FlowRecovery

/-- JSON writes a double with an exponent from `10 ^ 21` on and below a millionth. -/
def Value.jsonLayout : Decimal.Layout := ⟨21, -6, 1⟩

namespace Value

def floatText? (x : Float) : Option String :=
  let b := Decimal.Binary64.ofFloat x
  if b.isFinite then some (jsonLayout.render b) else none

/-- The name of a field for a key: numbers are spelled out, truth values and null have none. -/
def fieldName? : Key → Option String
  | .null | .bool _ => none
  | .int n => some (toString n)
  | .float x => floatText? x
  | .str s => some s
  | .time t => t.interchange?

mutual

/-- The JSON form of an operand. Doubles that are no numbers have none, and neither have maps with a
key that has no name. -/
def json? : Value → Option Json
  | null => some .null
  | bool b => some (.bool b)
  | int n => some (.int n)
  | float x => (floatText? x).map .real
  | str s => some (.str s)
  | time t => t.interchange?.map .str
  | list items => (jsonItems? items).map .arr
  | map entries =>
    (jsonEntries? entries).map fun fs => .obj (sorted (fun a b => decide (a ≤ b)) fs)
  | mixed entries =>
    (jsonKeyed? entries).map fun fs => .obj (sorted (fun a b => decide (a ≤ b)) fs)

def jsonItems? : List Value → Option (List Json)
  | [] => some []
  | v :: rest => do some ((← json? v) :: (← jsonItems? rest))

def jsonEntries? : List (String × Value) → Option (List (String × Json))
  | [] => some []
  | (k, v) :: rest => do some ((k, ← json? v) :: (← jsonEntries? rest))

def jsonKeyed? : List (Key × Value) → Option (List (String × Json))
  | [] => some []
  | (k, v) :: rest => do some ((← fieldName? k, ← json? v) :: (← jsonKeyed? rest))

end

/-! ### Complaints -/

def floatComplaint? (x : Float) : Option String :=
  if (Decimal.Binary64.ofFloat x).isFinite then none
  else some ("json: unsupported value: " ++ floatText x)

def timeComplaint? (t : Timestamp) : Option String :=
  match t.interchange? with
  | some _ => none
  | none =>
    some ("json: error calling MarshalJSON for type time.Time: "
      ++ "Time.MarshalJSON: timezone hour outside of range [0,23]")

def keyComplaint? : Key → Option String
  | .null | .bool _ => some "json: unsupported type: map[interface \x7b\x7d]interface \x7b\x7d"
  | .int _ | .str _ => none
  | .float x => floatComplaint? x
  | .time t => timeComplaint? t

mutual

/-- What is wrong with an operand that has no JSON form. Lists are gone through in their order, and maps
in the order of their fields, whose names come first. -/
def complaint? : Value → Option String
  | null | bool _ | int _ | str _ => none
  | float x => floatComplaint? x
  | time t => timeComplaint? t
  | list items => complaintItems? items
  | map entries =>
    (sorted (fun a b => decide (a ≤ b)) (complaintEntries entries)).findSome? (·.2)
  | mixed entries =>
    (entries.findSome? (keyComplaint? ·.1)).or
      ((sorted (fun a b => decide (a ≤ b)) (complaintKeyed entries)).findSome? (·.2))

def complaintItems? : List Value → Option String
  | [] => none
  | v :: rest => (complaint? v).or (complaintItems? rest)

def complaintEntries : List (String × Value) → List (String × Option String)
  | [] => []
  | (k, v) :: rest => (k, complaint? v) :: complaintEntries rest

def complaintKeyed : List (Key × Value) → List (String × Option String)
  | [] => []
  | (k, v) :: rest => ((fieldName? k).getD "", complaint? v) :: complaintKeyed rest

end

end Value

namespace Export

abbrev Fields := List (String × Json)

/-- A field that is left out when its condition fails. -/
def optional (keep : Bool) (name : String) (value : Json) : Fields :=
  if keep then [(name, value)] else []

def nat (n : Nat) : Json := .int n

def instructionFields? (root : Instruction) : Option Fields := do
  let params ← Value.jsonItems? root.params
  some ([("offset", .int root.offset),
      ("opcode", .obj [("id", .int root.code.id), ("name", .str root.code.name)])]
    ++ optional (!params.isEmpty) "params" (.arr params))

def actionKind : Action → String
  | .plain _ => "op"
  | .label _ => "label"
  | .labelJump .. => "label_jump"

def actionFields? : Action → Option Fields
  | .plain root => instructionFields? root
  | .label id => some [("label", .int id)]
  | .labelJump root target => do
    let fields ← instructionFields? root
    some (fields
      ++ [("target", .obj [("routine", .int target.routine), ("label", .int target.label)])])

def vertexJson? (v : Vertex) : Option Json := do
  let fields ← actionFields? v.op.action
  some (.obj ([("id", .int v.id), ("kind", .str (actionKind v.op.action)),
      ("text", .str v.op.text)] ++ fields
    ++ optional (!v.op.markers.isEmpty) "markers" (.arr (v.op.markers.map fun m => .str m.text))))

def edgeJson (e : Edge) : Json :=
  .obj [("from", .int e.source), ("to", .int e.target), ("flow_level", .int e.attrs.level.toInt),
    ("is_else", .bool e.attrs.isElse), ("loop", .bool e.attrs.loop)]

def statsJson (rr : RoutineResult) : Json :=
  .obj [("loop_edges", nat rr.build.loopEdges), ("tail_edges", nat rr.build.tailEdges),
    ("chains_collapsed", nat rr.reduce.chainsCollapsed),
    ("branches", nat rr.reduce.branches.found),
    ("structured", nat rr.reduce.branches.structured),
    ("unstructured", nat rr.reduce.unstructured),
    ("jumps_removed", nat rr.reduce.branches.jumpsRemoved)]

def headFields (rr : RoutineResult) : Fields :=
  [("id", .int rr.id), ("type", .str rr.typeName)]
    ++ optional (rr.linkedTo ≠ 0) "linked_to" (.int rr.linkedTo)

def graphFields? (rr : RoutineResult) (g : Graph) : Option Fields := do
  let vertices ← g.vertices.mapM vertexJson?
  let edges := g.edgesBySource.map edgeJson
  some ([("stats", statsJson rr)] ++ optional (!vertices.isEmpty) "vertices" (.arr vertices)
    ++ optional (!edges.isEmpty) "edges" (.arr edges))

def routineJson? (rr : RoutineResult) : Option Json :=
  match rr.graphIfOk? with
  | some g => (graphFields? rr g).map fun fields => .obj (headFields rr ++ fields)
  | none =>
    let text := (rr.fault.map (·.text)).getD ""
    some (.obj (headFields rr ++ optional (text ≠ "") "error" (.str text)))

def vertexComplaint? (v : Vertex) : Option String :=
  v.op.root?.bind fun root => Value.complaintItems? root.params

def routineComplaint? (rr : RoutineResult) : Option String :=
  rr.graphIfOk?.bind fun g => g.vertices.findSome? vertexComplaint?

end Export

namespace Result

def json? (r : Result) : Option Json := do
  some (.obj [("routines", .arr (← r.routines.mapM Export.routineJson?))])

/-- What the encoder complains about first. -/
def complaint? (r : Result) : Option String := r.routines.findSome? Export.routineComplaint?

/-- The document as text, or the encoder's complaint. -/
def encode (r : Result) : Except String String :=
  match r.json? with
  | some j => .ok j.indented
  | none => .error (r.complaint?.getD "")

/-- The text of a result by some encoder. -/
def textBy (encode : Result → Except String String) (r : Result) : Except Fault String :=
  (encode r).mapError fun complaint => .within "encode" (.unencodable complaint)

def jsonText (r : Result) : Except Fault String := r.textBy encode

end Result

end FlowRecovery

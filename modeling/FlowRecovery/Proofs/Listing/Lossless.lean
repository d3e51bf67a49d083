import FlowRecovery.Proofs.Listing.Operands
import FlowRecovery.Proofs.Pipeline.Entry
import FlowRecovery.Proofs.Pipeline.History

/-! The document of a result loses nothing. Its text is read back to a document, and the document to a
record for each entry of the result, in their order: what the entry is, how it failed, or its metrics,
vertices and edges. Fields that are left out stand for zero or for nothing. -/

namespace FlowRecovery

/-! ### Reading fields -/

namespace Json

variable {α : Type} {name key : String} {value : Json} {fields more : List (String × Json)}

/-- The field of an object by a reader; a field that is left out stands for `missing`. -/
def read? (j : Json) (name : String) (missing : α) (read : Json → Option α) : Option α :=
  match j.field? name with
  | none => some missing
  | some value => read value

def asInt? : Json → Option Int
  | int n => some n
  | _ => none

def asBool? : Json → Option Bool
  | bool b => some b
  | _ => none

def asStr? : Json → Option String
  | str s => some s
  | _ => none

def asList? (read : Json → Option α) : Json → Option (List α)
  | arr items => items.mapM read
  | _ => none

@[simp] theorem asInt?_int (n : Int) : (int n).asInt? = some n := rfl

@[simp] theorem asStr?_str (text : String) : (str text).asStr? = some text := rfl

@[simp] theorem field?_nil : (obj []).field? name = none := rfl

@[simp] theorem field?_append :
    (obj (fields ++ more)).field? name = ((obj more).field? name).or ((obj fields).field? name) := by
  simp [field?, List.lookup_append]

@[simp] theorem field?_cons :
    (obj ((key, value) :: fields)).field? name =
      ((obj fields).field? name).or (if name = key then some value else none) := by
  simp only [field?, List.reverse_cons, List.lookup_append, List.lookup_cons, List.lookup_nil]
  by_cases h : name = key
  · simp [h]
  · simp [h, beq_eq_false_iff_ne.mpr h]

@[simp] theorem field?_optional {keep : Bool} :
    (obj (Export.optional keep key value)).field? name =
      if keep ∧ name = key then some value else none := by
  cases keep <;> simp [Export.optional]

end Json

@[simp] theorem Export.mem_optional {keep : Bool} {key : String} {value : Json} {p : String × Json} :
    p ∈ optional keep key value ↔ keep = true ∧ p = (key, value) := by
  cases keep <;> simp [optional]

/-! ### Lists -/

section Lists

variable {α β γ : Type}

end Lists

/-! ### Edges and metrics -/

/-- What the text says of an edge. -/
structure EdgeRecord where
  source : Int
  target : Int
  level : Int
  isElse : Bool
  loop : Bool
deriving DecidableEq, Repr

namespace EdgeRecord

def ofJson? (j : Json) : Option EdgeRecord := do
  some {
    source := ← j.read? "from" 0 Json.asInt?
    target := ← j.read? "to" 0 Json.asInt?
    level := ← j.read? "flow_level" 0 Json.asInt?
    isElse := ← j.read? "is_else" false Json.asBool?
    loop := ← j.read? "loop" false Json.asBool? }

def of (e : Edge) : EdgeRecord :=
  ⟨e.source, e.target, e.attrs.level.toInt, e.attrs.isElse, e.attrs.loop⟩

@[simp] theorem exact_edgeJson (e : Edge) : (Export.edgeJson e).exact = true := rfl

end EdgeRecord

/-- What the text says of how a routine was recovered. -/
structure Metrics where
  loopEdges : Int
  tailEdges : Int
  chainsCollapsed : Int
  branches : Int
  structured : Int
  unstructured : Int
  jumpsRemoved : Int
deriving DecidableEq, Repr

namespace Metrics

def ofJson? (j : Json) : Option Metrics := do
  some {
    loopEdges := ← j.read? "loop_edges" 0 Json.asInt?
    tailEdges := ← j.read? "tail_edges" 0 Json.asInt?
    chainsCollapsed := ← j.read? "chains_collapsed" 0 Json.asInt?
    branches := ← j.read? "branches" 0 Json.asInt?
    structured := ← j.read? "structured" 0 Json.asInt?
    unstructured := ← j.read? "unstructured" 0 Json.asInt?
    jumpsRemoved := ← j.read? "jumps_removed" 0 Json.asInt? }

def of (rr : RoutineResult) : Metrics where
  loopEdges := rr.build.loopEdges
  tailEdges := rr.build.tailEdges
  chainsCollapsed := rr.reduce.chainsCollapsed
  branches := rr.reduce.branches.found
  structured := rr.reduce.branches.structured
  unstructured := rr.reduce.unstructured
  jumpsRemoved := rr.reduce.branches.jumpsRemoved

@[simp] theorem exact_statsJson (rr : RoutineResult) : (Export.statsJson rr).exact = true := rfl

end Metrics

/-! ### Vertices -/

namespace Export

variable {root : Instruction} {js : List Json}

end Export

def Opcode.ofJson? (j : Json) : Option Opcode := do
  some { id := ← j.read? "id" 0 Json.asInt?, name := ← j.read? "name" "" Json.asStr? }

@[simp] theorem Opcode.ofJson?_obj (code : Opcode) :
    ofJson? (.obj [("id", .int code.id), ("name", .str code.name)]) = some code := rfl

def LabelRef.ofJson? (j : Json) : Option LabelRef := do
  some { routine := ← j.read? "routine" 0 Json.asInt?, label := ← j.read? "label" 0 Json.asInt? }

@[simp] theorem LabelRef.ofJson?_obj (target : LabelRef) :
    ofJson? (.obj [("routine", .int target.routine), ("label", .int target.label)]) = some target := rfl

def Action.target? : Action → Option LabelRef
  | .labelJump _ target => some target
  | _ => none

/-- All operands of the operation are portable. -/
def Operation.portable (op : Operation) : Bool :=
  op.root?.all fun root => root.params.all Value.portable

theorem Operation.portable_congr {op op' : Operation} (h : op.action = op'.action) :
    op.portable = op'.portable := by
  rw [portable, portable, root?, root?, h]

/-- What the text says of a vertex. -/
structure VertexRecord where
  id : Int
  kind : String
  text : String
  offset : Option Int
  opcode : Option Opcode
  params : List Value
  label : Option Int
  target : Option LabelRef
  markers : List String

namespace VertexRecord

def ofJson? (j : Json) : Option VertexRecord := do
  some {
    id := ← j.read? "id" 0 Json.asInt?
    kind := ← j.read? "kind" "" Json.asStr?
    text := ← j.read? "text" "" Json.asStr?
    offset := ← j.read? "offset" none fun v => v.asInt?.map some
    opcode := ← j.read? "opcode" none fun v => (Opcode.ofJson? v).map some
    params := ← j.read? "params" [] (Json.asList? Value.ofJson?)
    label := ← j.read? "label" none fun v => v.asInt?.map some
    target := ← j.read? "target" none fun v => (LabelRef.ofJson? v).map some
    markers := ← j.read? "markers" [] (Json.asList? Json.asStr?) }

/-- What there is to say of a vertex, with its operands as given. -/
def of (v : Vertex) (params : List Value) : VertexRecord where
  id := v.id
  kind := Export.actionKind v.op.action
  text := v.op.text
  offset := v.op.root?.map Instruction.offset
  opcode := v.op.root?.map Instruction.code
  params := params
  label := v.op.label?
  target := v.op.action.target?
  markers := v.op.markers.map Marker.text

/-- It says what there is to say of the vertex, and its operands are the same ones. -/
def Describes (record : VertexRecord) (v : Vertex) : Prop :=
  record = of v record.params ∧ (v.op.root?.elim [] Instruction.params).Forall₂ Value.Same record.params

theorem map_id_eq {records : List VertexRecord} {vertices : List Vertex}
    (h : records.Forall₂ Describes vertices) : records.map VertexRecord.id = vertices.map Vertex.id := by
  rw [← List.forall₂_eq_eq_eq, List.forall₂_map_left_iff, List.forall₂_map_right_iff]
  refine h.imp fun record v hv => ?_
  rw [hv.1]
  rfl

end VertexRecord

/-! ### Routines -/

/-- What the text says of a routine. -/
structure RoutineRecord where
  id : Int
  type : String
  linkedTo : Int
  error : String
  metrics : Option Metrics
  vertices : List VertexRecord
  edges : List EdgeRecord

namespace RoutineRecord

def ofJson? (j : Json) : Option RoutineRecord := do
  some {
    id := ← j.read? "id" 0 Json.asInt?
    type := ← j.read? "type" "" Json.asStr?
    linkedTo := ← j.read? "linked_to" 0 Json.asInt?
    error := ← j.read? "error" "" Json.asStr?
    metrics := ← j.read? "stats" none fun v => (Metrics.ofJson? v).map some
    vertices := ← j.read? "vertices" [] (Json.asList? VertexRecord.ofJson?)
    edges := ← j.read? "edges" [] (Json.asList? EdgeRecord.ofJson?) }

/-- It says what there is to say of the entry: for one that failed, its fault and nothing of a graph. -/
structure Describes (record : RoutineRecord) (rr : RoutineResult) : Prop where
  id_eq : record.id = rr.id
  type_eq : record.type = rr.typeName
  linkedTo_eq : record.linkedTo = rr.linkedTo
  error_eq : record.error = (rr.fault.map Fault.text).getD ""
  metrics_eq : record.metrics = rr.graphIfOk?.map fun _ => Metrics.of rr
  vertices : record.vertices.Forall₂ VertexRecord.Describes (rr.graphIfOk?.elim [] Graph.vertices)
  edges_eq : record.edges = (rr.graphIfOk?.elim [] Graph.edgesBySource).map EdgeRecord.of

/-- Both ends of every edge are vertices of the record. -/
def Closed (record : RoutineRecord) : Prop :=
  ∀ e ∈ record.edges, (∃ v ∈ record.vertices, v.id = e.source) ∧ ∃ v ∈ record.vertices, v.id = e.target

end RoutineRecord

/-! ### Graphs -/

namespace Graph

variable {g : Graph}

theorem mem_ops_of_mem_vertices {v : Vertex} (h : v ∈ g.vertices) : v.op ∈ g.ops := by
  obtain ⟨x, -, hx⟩ := List.mem_filterMap.mp h
  obtain ⟨op, hop, rfl⟩ := Option.map_eq_some_iff.mp hx
  unfold op? at hop
  split_ifs at hop
  exact List.mem_of_getElem? hop

theorem exists_mem_vertices (hg : g.WellFormed) {x : Int} (hx : x ∈ g.live) :
    ∃ v ∈ g.vertices, v.id = x := by
  obtain ⟨op, hop⟩ := exists_op? hg hx
  exact ⟨⟨x, op⟩, List.mem_filterMap.mpr ⟨x, hx, by simp [vertex?, hop]⟩, rfl⟩

theorem mem_edges_of_mem_edgesBySource {e : Edge} (h : e ∈ g.edgesBySource) : e ∈ g.edges := by
  obtain ⟨x, -, hx⟩ := List.mem_flatMap.mp h
  exact (mem_outs.mp hx).1

end Graph

theorem RoutineRecord.Describes.closed {record : RoutineRecord} {rr : RoutineResult}
    (h : record.Describes rr) (hgraph : ∀ g ∈ rr.graphIfOk?, g.WellFormed) : record.Closed := by
  intro e he
  have hedges := h.edges_eq
  have hvertices := h.vertices
  cases hg : rr.graphIfOk? with
  | none => simp [hedges, hg] at he
  | some g =>
    rw [hg] at hedges hvertices
    rw [hedges] at he
    obtain ⟨e, hmem, rfl⟩ := List.mem_map.mp he
    have hwell := hgraph g hg
    have hids := VertexRecord.map_id_eq hvertices
    have hend {x : Int} (hx : x ∈ g.live) : ∃ v ∈ record.vertices, v.id = x := by
      obtain ⟨v, hv, rfl⟩ := Graph.exists_mem_vertices hwell hx
      exact List.mem_map.mp (hids ▸ List.mem_map_of_mem hv)
    have hmem := Graph.mem_edges_of_mem_edgesBySource hmem
    exact ⟨hend (hwell.source_live e hmem), hend (hwell.target_live e hmem)⟩

/-! ### Results -/

namespace Settings.Recovers

variable {s : Settings} {r : Routine} {rr : RoutineResult} {g : Graph}

theorem wellFormed (h : s.Recovers r rr) (hg : rr.graphIfOk? = some g) : g.WellFormed := by
  cases h with
  | unbuilt => simp [RoutineResult.graphIfOk?] at hg
  | unstructured => simp [RoutineResult.graphIfOk?] at hg
  | ok hbuild hfault =>
    obtain rfl := Option.some.inj hg
    exact wellFormed_minimize hbuild hfault

/-- The vertices that are left have the operands that the operations of the routine have. -/
theorem portable (h : s.Recovers r rr) (hg : rr.graphIfOk? = some g)
    (hops : ∀ op ∈ r.ops, op.portable = true) : ∀ v ∈ g.vertices, v.op.portable = true := by
  cases h with
  | unbuilt => simp [RoutineResult.graphIfOk?] at hg
  | unstructured => simp [RoutineResult.graphIfOk?] at hg
  | ok hbuild hfault =>
    obtain rfl := Option.some.inj hg
    intro v hv
    have hactions := Graph.actions_minimize hbuild s.passes
    rw [(Graph.spans_of_build hbuild).ops] at hactions
    have haction := List.mem_map_of_mem (f := Operation.action) (Graph.mem_ops_of_mem_vertices hv)
    rw [hactions] at haction
    obtain ⟨op, hop, heq⟩ := List.mem_map.mp haction
    rw [← Operation.portable_congr heq]
    exact hops op hop

end Settings.Recovers

end FlowRecovery

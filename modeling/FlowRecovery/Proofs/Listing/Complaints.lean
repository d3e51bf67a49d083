import FlowRecovery.Proofs.Listing.Operands

/-! A result has a text if and only if its encoder has no complaint. So a result that is refused is refused
with the complaint about the first operand without a JSON form, and there is always one. -/

namespace FlowRecovery

theorem isSome_mapM_iff {α β : Type} {f : α → Option β} {xs : List α} :
    (xs.mapM f).isSome = true ↔ ∀ x ∈ xs, (f x).isSome = true := by
  induction xs with
  | nil => simp
  | cons x xs ih =>
    rw [List.mapM_cons, List.forall_mem_cons, ← ih]
    cases f x with
    | none => simp
    | some y => cases xs.mapM f <;> simp

namespace Value

/-! ### Operands -/

theorem isSome_floatText?_iff (x : Float) : (floatText? x).isSome = true ↔ floatComplaint? x = none := by
  by_cases hfinite : (Decimal.Binary64.ofFloat x).isFinite = true <;> simp [floatText?, floatComplaint?, hfinite]

theorem isSome_interchange?_iff (t : Timestamp) : t.interchange?.isSome = true ↔ timeComplaint? t = none := by
  unfold timeComplaint?
  cases t.interchange? <;> simp

theorem isSome_fieldName?_iff (k : Key) : (fieldName? k).isSome = true ↔ keyComplaint? k = none := by
  cases k with
  | null | bool | int | str => simp [fieldName?, keyComplaint?]
  | float x => exact isSome_floatText?_iff x
  | time t => exact isSome_interchange?_iff t

theorem jsonItems?_eq_mapM (items : List Value) : jsonItems? items = items.mapM json? := by
  induction items with
  | nil => rfl
  | cons v items ih =>
    rw [jsonItems?, ih, List.mapM_cons]
    rfl

theorem jsonEntries?_eq_mapM (entries : List (String × Value)) :
    jsonEntries? entries = entries.mapM fun p => (json? p.2).map (p.1, ·) := by
  induction entries with
  | nil => rfl
  | cons p entries ih =>
    rw [jsonEntries?, ih, List.mapM_cons]
    cases json? p.2 <;> rfl

theorem jsonKeyed?_eq_mapM (entries : List (Key × Value)) :
    jsonKeyed? entries = entries.mapM fun p => (fieldName? p.1).bind fun name => (json? p.2).map (name, ·) := by
  induction entries with
  | nil => rfl
  | cons p entries ih =>
    rw [jsonKeyed?, ih, List.mapM_cons]
    cases fieldName? p.1 <;> cases json? p.2 <;> rfl

theorem complaintItems?_eq_none_iff {items : List Value} :
    complaintItems? items = none ↔ ∀ v ∈ items, complaint? v = none := by
  induction items with
  | nil => simp [complaintItems?]
  | cons v items ih => rw [complaintItems?, Option.or_eq_none_iff, List.forall_mem_cons, ih]

theorem complaintEntries_eq_map (entries : List (String × Value)) :
    complaintEntries entries = entries.map fun p => (p.1, complaint? p.2) := by
  induction entries with
  | nil => rfl
  | cons p entries ih => rw [complaintEntries, ih, List.map_cons]

theorem complaintKeyed_eq_map (entries : List (Key × Value)) :
    complaintKeyed entries = entries.map fun p => ((fieldName? p.1).getD "", complaint? p.2) := by
  induction entries with
  | nil => rfl
  | cons p entries ih => rw [complaintKeyed, ih, List.map_cons]

/-- The order of the fields decides which complaint comes first, and not whether there is one. -/
theorem findSome?_sorted_eq_none_iff {α β γ : Type} (le : α → α → Bool) (entries : List (α × β))
    (f : α × β → Option γ) : (sorted le entries).findSome? f = none ↔ ∀ p ∈ entries, f p = none := by
  rw [List.findSome?_eq_none_iff]
  exact forall_congr' fun p => imp_congr_left (perm_sorted le entries).mem_iff

theorem isSome_json?_iff (v : Value) : (json? v).isSome = true ↔ complaint? v = none := by
  induction v with
  | null | bool | int | str => simp [json?, complaint?]
  | float x => rw [json?, complaint?, Option.isSome_map, isSome_floatText?_iff]
  | time t => rw [json?, complaint?, Option.isSome_map, isSome_interchange?_iff]
  | list items ih =>
    rw [json?, complaint?, Option.isSome_map, jsonItems?_eq_mapM, isSome_mapM_iff, complaintItems?_eq_none_iff]
    exact forall₂_congr ih
  | map entries ih =>
    rw [json?, complaint?, Option.isSome_map, jsonEntries?_eq_mapM, isSome_mapM_iff,
      complaintEntries_eq_map, findSome?_sorted_eq_none_iff, List.forall_mem_map]
    refine forall₂_congr fun p hp => ?_
    rw [Option.isSome_map, ih p hp]
  | mixed entries ih =>
    rw [json?, complaint?, Option.isSome_map, jsonKeyed?_eq_mapM, isSome_mapM_iff,
      complaintKeyed_eq_map, Option.or_eq_none_iff, List.findSome?_eq_none_iff,
      findSome?_sorted_eq_none_iff, List.forall_mem_map, ← forall₂_and]
    refine forall₂_congr fun p hp => ?_
    rw [← isSome_fieldName?_iff, ← ih p hp]
    cases fieldName? p.1 <;> simp

end Value

/-! ### Documents -/

namespace Export

theorem isSome_instructionFields?_iff (root : Instruction) :
    (instructionFields? root).isSome = true ↔ Value.complaintItems? root.params = none := by
  have hfields : (instructionFields? root).isSome = (root.params.mapM Value.json?).isSome := by
    rw [instructionFields?, Value.jsonItems?_eq_mapM]
    cases root.params.mapM Value.json? <;> simp
  rw [hfields, isSome_mapM_iff, Value.complaintItems?_eq_none_iff]
  exact forall₂_congr fun v _ => v.isSome_json?_iff

theorem isSome_vertexJson?_iff (v : Vertex) : (vertexJson? v).isSome = true ↔ vertexComplaint? v = none := by
  have hfields : (vertexJson? v).isSome = (actionFields? v.op.action).isSome := by
    rw [vertexJson?]
    cases actionFields? v.op.action <;> simp
  rw [hfields, vertexComplaint?, Operation.root?]
  cases v.op.action with
  | plain root => exact isSome_instructionFields?_iff root
  | label id => simp [actionFields?]
  | labelJump root target =>
    rw [actionFields?, Option.bind_some, ← isSome_instructionFields?_iff]
    cases instructionFields? root <;> simp

theorem isSome_routineJson?_iff (rr : RoutineResult) :
    (routineJson? rr).isSome = true ↔ routineComplaint? rr = none := by
  unfold routineJson? routineComplaint?
  cases rr.graphIfOk? with
  | none => simp
  | some g =>
    have hfields : (graphFields? rr g).isSome = (g.vertices.mapM vertexJson?).isSome := by
      rw [graphFields?]
      cases g.vertices.mapM vertexJson? <;> simp
    simp only [Option.isSome_map, hfields, isSome_mapM_iff, Option.bind_some, List.findSome?_eq_none_iff,
      isSome_vertexJson?_iff]

end Export

namespace Result

theorem isSome_json?_iff (r : Result) : r.json?.isSome = true ↔ r.complaint? = none := by
  have hroutines : r.json?.isSome = (r.routines.mapM Export.routineJson?).isSome := by
    rw [json?]
    cases r.routines.mapM Export.routineJson? <;> simp
  rw [hroutines, isSome_mapM_iff, complaint?, List.findSome?_eq_none_iff]
  exact forall₂_congr fun rr _ => Export.isSome_routineJson?_iff rr

/-- A result is refused with its first complaint, and only if it has one. -/
theorem encode_eq_error_iff (r : Result) (complaint : String) :
    r.encode = .error complaint ↔ r.complaint? = some complaint := by
  have hsome := r.isSome_json?_iff
  unfold encode
  cases hjson : r.json? with
  | some j => simp [hsome.mp (by rw [hjson]; rfl)]
  | none =>
    obtain ⟨c, hc⟩ := Option.ne_none_iff_exists'.mp fun hnone => by simpa [hjson] using hsome.mpr hnone
    simp [hc]

end Result

end FlowRecovery

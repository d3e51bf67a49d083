import FlowRecovery.Proofs.Graph.WellFormed

/-! Graphs with other operations. Edges are drawn, removed and followed without a look at the operations,
so all that is done with them commutes with an exchange of the operations. What looks at the operations of
vertices alone does not see the rest of them: it is the same if the new operations agree with the old ones
at the vertices. -/

namespace FlowRecovery.Graph

variable {g : Graph} {ops : List Operation}

/-- The graph with other operations. -/
def withOps (g : Graph) (ops : List Operation) : Graph := { g with ops }

@[simp] theorem ops_withOps : (g.withOps ops).ops = ops := rfl

@[simp] theorem live_withOps : (g.withOps ops).live = g.live := rfl

@[simp] theorem has_withOps (x : Int) : (g.withOps ops).has x = g.has x := rfl

@[simp] theorem withOps_withOps (ops' : List Operation) :
    (g.withOps ops).withOps ops' = g.withOps ops' := rfl

theorem WellFormed.withOps (h : g.WellFormed) (hlen : ops.length = g.ops.length) :
    (g.withOps ops).WellFormed where
  live_sorted := h.live_sorted
  live_inside v hv := by
    rw [ops_withOps, hlen]
    exact h.live_inside v hv
  ids_sorted := h.ids_sorted
  ids_below := h.ids_below
  source_live := h.source_live
  target_live := h.target_live

/-! ### Edges -/

theorem addEdge_withOps (a b : Int) (attrs : Attrs) :
    (g.withOps ops).addEdge a b attrs =
      (g.addEdge a b attrs).map fun drawn => (drawn.1.withOps ops, drawn.2) := by
  unfold addEdge
  rw [has_withOps, has_withOps]
  cases g.has a <;> cases g.has b <;> rfl

theorem link_withOps (a b : Int) (attrs : Attrs) :
    (g.withOps ops).link a b attrs = (g.link a b attrs).withOps ops := by
  unfold link
  rw [addEdge_withOps]
  cases g.addEdge a b attrs <;> rfl

theorem search_withOps (goal : Int) (fuel : Nat) (stack seen : List Int) :
    (g.withOps ops).search goal fuel stack seen = g.search goal fuel stack seen := by
  induction fuel generalizing stack seen with
  | zero => rfl
  | succ fuel ih =>
    cases stack with
    | nil => rfl
    | cons v stack =>
      unfold search
      simp only [ih]
      rfl

theorem reachable_withOps (a b : Int) : (g.withOps ops).reachable a b = g.reachable a b := by
  unfold reachable
  rw [search_withOps]
  rfl

theorem removeEdge_withOps (id : Nat) :
    (g.withOps ops).removeEdge id = (g.removeEdge id).withOps ops := rfl

/-- What each step of a fold does without a look at the operations, the fold does. -/
theorem foldl_withOps {f : Graph → Edge → Graph}
    (hf : ∀ g e, f (g.withOps ops) e = (f g e).withOps ops) (es : List Edge) :
    es.foldl f (g.withOps ops) = (es.foldl f g).withOps ops := by
  induction es generalizing g with
  | nil => rfl
  | cons e es ih => rw [List.foldl_cons, List.foldl_cons, hf, ih]

/-! ### Operations of vertices -/

/-- The operations `ops` agree with those of the graph at its vertices. -/
def AgreesOn (g : Graph) (ops : List Operation) : Prop :=
  ∀ x ∈ g.live, ops[x.toNat]? = g.ops[x.toNat]?

theorem AgreesOn.op? (h : g.AgreesOn ops) (x : Int) : (g.withOps ops).op? x = g.op? x := by
  unfold Graph.op?
  by_cases hx : x ∈ g.live
  · rw [has_withOps, if_pos (has_iff.mpr hx), if_pos (has_iff.mpr hx)]
    exact h x hx
  · rw [has_withOps, has_eq_false hx]
    rfl

/-- Where operations agree, they are changed alike. -/
theorem AgreesOn.updateOp (h : g.AgreesOn ops) (id : Int) (f : Operation → Operation) :
    ∃ ops', (g.withOps ops).updateOp id f = (g.updateOp id f).withOps ops' ∧
      (g.updateOp id f).AgreesOn ops' := by
  by_cases hid : id ∈ g.live
  · refine ⟨ops.modify id.toNat f, ?_, ?_⟩
    · rw [Graph.updateOp, Graph.updateOp, has_withOps, if_pos (has_iff.mpr hid),
        if_pos (has_iff.mpr hid)]
      rfl
    · rw [Graph.updateOp, if_pos (has_iff.mpr hid)]
      intro x hx
      rw [List.getElem?_modify, List.getElem?_modify, h x hx]
  · refine ⟨ops, ?_, ?_⟩
    · rw [Graph.updateOp, Graph.updateOp, if_neg (by simpa using hid), if_neg (by simpa using hid)]
    · rw [Graph.updateOp, if_neg (by simpa using hid)]
      exact h

theorem AgreesOn.deleteVertices (h : g.AgreesOn ops) (ids : List Int) :
    (g.deleteVertices ids).1.AgreesOn ops :=
  fun x hx => h x (List.mem_of_mem_filter hx)

end FlowRecovery.Graph

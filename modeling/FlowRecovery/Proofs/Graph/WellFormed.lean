import FlowRecovery.Graph.Reach
import Mathlib.Data.List.Nodup

/-! Graphs in good order: vertices and edge numbers ascend, every number has been handed out, every
vertex has an operation and every edge joins two vertices. A graph without edges is in good order,
and drawing, removing and marking edges and deleting vertices keep it so. -/

namespace FlowRecovery.Graph

structure WellFormed (g : Graph) : Prop where
  live_sorted : g.live.Pairwise (· < ·)
  live_inside : ∀ v ∈ g.live, 0 ≤ v ∧ v.toNat < g.ops.length
  ids_sorted : g.edges.Pairwise (fun a b => a.id < b.id)
  ids_below : ∀ e ∈ g.edges, e.id < g.nextEdge
  source_live : ∀ e ∈ g.edges, e.source ∈ g.live
  target_live : ∀ e ∈ g.edges, e.target ∈ g.live

variable {g : Graph}

@[simp] theorem has_iff {v : Int} : g.has v = true ↔ v ∈ g.live := by simp [has]

theorem has_eq_false {v : Int} (h : v ∉ g.live) : g.has v = false := by simpa [has] using h

theorem mem_outs {e : Edge} {v : Int} : e ∈ g.outs v ↔ e ∈ g.edges ∧ e.source = v := by
  simp [outs]

theorem mem_ins {e : Edge} {v : Int} : e ∈ g.ins v ↔ e ∈ g.edges ∧ e.target = v := by
  simp [ins]

/-! ### Operations of vertices -/

theorem mem_live_of_op? {v : Int} {op : Operation} (h : g.op? v = some op) : v ∈ g.live := by
  unfold op? at h
  split_ifs at h with hhas
  exact has_iff.mp hhas

theorem op?_of_not_mem {x : Int} (hx : x ∉ g.live) : g.op? x = none := by
  rw [op?, has_eq_false hx]
  rfl

theorem exists_op? {x : Int} (hg : g.WellFormed) (hx : x ∈ g.live) : ∃ op, g.op? x = some op := by
  rw [op?, if_pos (has_iff.mpr hx)]
  exact ⟨_, List.getElem?_eq_getElem (hg.live_inside x hx).2⟩

/-! ### Deleting vertices -/

theorem mem_live_deleteVertices {dead : List Int} {x : Int} :
    x ∈ (g.deleteVertices dead).1.live ↔ x ∈ g.live ∧ x ∉ dead := by
  simp [deleteVertices]

theorem op?_deleteVertices {dead : List Int} {x : Int} (hx : x ∉ dead) :
    (g.deleteVertices dead).1.op? x = g.op? x := by
  simp [op?, has, deleteVertices, hx]

theorem vertex?_deleteVertices {dead : List Int} {x : Int} :
    (g.deleteVertices dead).1.vertex? x = if x ∈ dead then none else g.vertex? x := by
  unfold vertex?
  by_cases hx : x ∈ dead
  · rw [if_pos hx, op?_of_not_mem fun hlive => (mem_live_deleteVertices.mp hlive).2 hx]
    rfl
  · rw [if_neg hx, op?_deleteVertices hx]

/-! ### Drawing an edge -/

section Link

variable {s t : Int}

theorem addEdge_eq_ok {g' : Graph} {a : Attrs} {e : Edge} (h : g.addEdge s t a = .ok (g', e)) :
    s ∈ g.live ∧ t ∈ g.live ∧ g' = g.link s t a := by
  obtain ⟨hs, ht, rfl, rfl⟩ := addEdge_ok_iff.mp h
  exact ⟨has_iff.mp hs, has_iff.mp ht, (link_of_has hs ht a).symm⟩

theorem link_of_live (hs : s ∈ g.live) (ht : t ∈ g.live) (a : Attrs) :
    g.link s t a =
      { g with
        edges := g.edges ++ [{ id := g.nextEdge, source := s, target := t, attrs := a }]
        nextEdge := g.nextEdge + 1 } :=
  link_of_has (has_iff.mpr hs) (has_iff.mpr ht) a

/-- An edge whose ends are not both vertices is not drawn at all. -/
theorem link_of_not_live {a : Attrs} (h : ¬ (s ∈ g.live ∧ t ∈ g.live)) : g.link s t a = g := by
  unfold link addEdge
  rcases not_and_or.mp h with hs | ht
  · rw [has_eq_false hs]
    rfl
  · rw [has_eq_false ht]
    cases g.has s <;> rfl

theorem edges_link (hs : s ∈ g.live) (ht : t ∈ g.live) (a : Attrs) :
    (g.link s t a).edges =
      g.edges ++ [{ id := g.nextEdge, source := s, target := t, attrs := a }] := by
  rw [link_of_live hs ht]

theorem nextEdge_link (hs : s ∈ g.live) (ht : t ∈ g.live) (a : Attrs) :
    (g.link s t a).nextEdge = g.nextEdge + 1 := by
  rw [link_of_live hs ht]

theorem nextEdge_le_link {a : Attrs} : g.nextEdge ≤ (g.link s t a).nextEdge := by
  by_cases hst : s ∈ g.live ∧ t ∈ g.live
  · rw [nextEdge_link hst.1 hst.2]
    exact Nat.le_succ _
  · exact Nat.le_of_eq (by rw [link_of_not_live hst])

@[simp] theorem live_link (a : Attrs) : (g.link s t a).live = g.live := by
  unfold link addEdge
  cases g.has s <;> cases g.has t <;> rfl

@[simp] theorem ops_link (a : Attrs) : (g.link s t a).ops = g.ops := by
  unfold link addEdge
  cases g.has s <;> cases g.has t <;> rfl

theorem outs_link (hs : s ∈ g.live) (ht : t ∈ g.live) (a : Attrs) (v : Int) :
    (g.link s t a).outs v =
      g.outs v ++ if s = v then [{ id := g.nextEdge, source := s, target := t, attrs := a }]
        else [] := by
  unfold outs
  rw [edges_link hs ht, List.filter_append]
  by_cases hv : s = v <;> simp [hv]

theorem ins_link (hs : s ∈ g.live) (ht : t ∈ g.live) (a : Attrs) (v : Int) :
    (g.link s t a).ins v =
      g.ins v ++ if t = v then [{ id := g.nextEdge, source := s, target := t, attrs := a }]
        else [] := by
  unfold ins
  rw [edges_link hs ht, List.filter_append]
  by_cases hv : t = v <;> simp [hv]

theorem step_link (hs : s ∈ g.live) (ht : t ∈ g.live) (a : Attrs) (u v : Int) :
    (g.link s t a).Step u v ↔ g.Step u v ∨ (u = s ∧ v = t) := by
  unfold Step
  rw [edges_link hs ht]
  constructor
  · rintro ⟨e, he, hu, hv⟩
    rcases List.mem_append.mp he with he | he
    · exact Or.inl ⟨e, he, hu, hv⟩
    · obtain rfl := List.mem_singleton.mp he
      exact Or.inr ⟨hu.symm, hv.symm⟩
  · rintro (⟨e, he, hu, hv⟩ | ⟨rfl, rfl⟩)
    · exact ⟨e, List.mem_append_left _ he, hu, hv⟩
    · exact ⟨_, List.mem_append_right _ (List.mem_singleton_self _), rfl, rfl⟩

end Link

namespace WellFormed

theorem ofOps (ops : List Operation) : (Graph.ofOps ops).WellFormed where
  live_sorted := by
    refine List.pairwise_map.mpr (List.pairwise_lt_range.imp ?_)
    intro a b hab
    exact Int.ofNat_lt.mpr hab
  live_inside := by
    intro v hv
    obtain ⟨n, hn, rfl⟩ := List.mem_map.mp hv
    exact ⟨Int.natCast_nonneg n, by simpa [Graph.ofOps] using hn⟩
  ids_sorted := List.Pairwise.nil
  ids_below := by simp [Graph.ofOps]
  source_live := by simp [Graph.ofOps]
  target_live := by simp [Graph.ofOps]

theorem live_nodup (h : g.WellFormed) : g.live.Nodup :=
  h.live_sorted.imp fun hab => Int.ne_of_lt hab

theorem eq_of_id_eq (h : g.WellFormed) {e f : Edge} (he : e ∈ g.edges) (hf : f ∈ g.edges)
    (hid : e.id = f.id) : e = f := by
  have hnodup : (g.edges.map (·.id)).Nodup :=
    List.pairwise_map.mpr (h.ids_sorted.imp fun hab => Nat.ne_of_lt hab)
  exact List.inj_on_of_nodup_map hnodup he hf hid

theorem edges_nodup (h : g.WellFormed) : g.edges.Nodup :=
  h.ids_sorted.imp fun hab heq => Nat.ne_of_lt hab (congrArg Edge.id heq)

theorem outs_eq_nil (h : g.WellFormed) {v : Int} (hv : v ∉ g.live) : g.outs v = [] := by
  refine List.filter_eq_nil_iff.mpr ?_
  intro e he hsource
  exact hv (of_decide_eq_true hsource ▸ h.source_live e he)

theorem ins_eq_nil (h : g.WellFormed) {v : Int} (hv : v ∉ g.live) : g.ins v = [] := by
  refine List.filter_eq_nil_iff.mpr ?_
  intro e he htarget
  exact hv (of_decide_eq_true htarget ▸ h.target_live e he)

theorem link (h : g.WellFormed) (s t : Int) (a : Attrs) : (g.link s t a).WellFormed := by
  by_cases hst : s ∈ g.live ∧ t ∈ g.live
  · obtain ⟨hs, ht⟩ := hst
    rw [link_of_live hs ht]
    refine ⟨h.live_sorted, h.live_inside, ?_, ?_, ?_, ?_⟩
    · rw [List.pairwise_append]
      refine ⟨h.ids_sorted, List.pairwise_singleton _ _, ?_⟩
      intro e he f hf
      obtain rfl := List.mem_singleton.mp hf
      exact h.ids_below e he
    · intro e he
      rcases List.mem_append.mp he with he | he
      · exact Nat.lt_succ_of_lt (h.ids_below e he)
      · obtain rfl := List.mem_singleton.mp he
        exact Nat.lt_succ_self _
    · intro e he
      rcases List.mem_append.mp he with he | he
      · exact h.source_live e he
      · obtain rfl := List.mem_singleton.mp he
        exact hs
    · intro e he
      rcases List.mem_append.mp he with he | he
      · exact h.target_live e he
      · obtain rfl := List.mem_singleton.mp he
        exact ht
  · rw [link_of_not_live hst]
    exact h

/-- Keeping only some of the edges. -/
theorem filterEdges (h : g.WellFormed) (p : Edge → Bool) :
    ({ g with edges := g.edges.filter p } : Graph).WellFormed where
  live_sorted := h.live_sorted
  live_inside := h.live_inside
  ids_sorted := h.ids_sorted.filter p
  ids_below e he := h.ids_below e (List.mem_of_mem_filter he)
  source_live e he := h.source_live e (List.mem_of_mem_filter he)
  target_live e he := h.target_live e (List.mem_of_mem_filter he)

theorem removeEdge (h : g.WellFormed) (id : Nat) : (g.removeEdge id).WellFormed :=
  h.filterEdges _

theorem setElse (h : g.WellFormed) (id : Nat) : (g.setElse id).WellFormed := by
  have hmem : ∀ e ∈ (g.setElse id).edges, ∃ f ∈ g.edges,
      e.id = f.id ∧ e.source = f.source ∧ e.target = f.target := by
    intro e he
    obtain ⟨f, hf, rfl⟩ := List.mem_map.mp he
    refine ⟨f, hf, ?_⟩
    split_ifs <;> exact ⟨rfl, rfl, rfl⟩
  refine ⟨h.live_sorted, h.live_inside, ?_, ?_, ?_, ?_⟩
  · refine List.pairwise_map.mpr (h.ids_sorted.imp ?_)
    intro a b hab
    split_ifs <;> exact hab
  · intro e he
    obtain ⟨f, hf, hid, -⟩ := hmem e he
    exact hid ▸ h.ids_below f hf
  · intro e he
    obtain ⟨f, hf, -, hs, -⟩ := hmem e he
    exact hs ▸ h.source_live f hf
  · intro e he
    obtain ⟨f, hf, -, -, ht⟩ := hmem e he
    exact ht ▸ h.target_live f hf

theorem updateOp (h : g.WellFormed) (id : Int) (f : Operation → Operation) :
    (g.updateOp id f).WellFormed := by
  unfold Graph.updateOp
  split_ifs
  · refine ⟨h.live_sorted, ?_, h.ids_sorted, h.ids_below, h.source_live, h.target_live⟩
    simpa using h.live_inside
  · exact h

theorem deleteVertices (h : g.WellFormed) (ids : List Int) :
    (g.deleteVertices ids).1.WellFormed where
  live_sorted := h.live_sorted.filter _
  live_inside v hv := h.live_inside v (List.mem_of_mem_filter hv)
  ids_sorted := h.ids_sorted.filter _
  ids_below e he := h.ids_below e (List.mem_of_mem_filter he)
  source_live e he := by
    have hkeep := List.mem_filter.mp he
    refine List.mem_filter.mpr ⟨h.source_live e hkeep.1, ?_⟩
    exact (Bool.and_eq_true_iff.mp hkeep.2).1
  target_live e he := by
    have hkeep := List.mem_filter.mp he
    refine List.mem_filter.mpr ⟨h.target_live e hkeep.1, ?_⟩
    exact (Bool.and_eq_true_iff.mp hkeep.2).2

end WellFormed

end FlowRecovery.Graph

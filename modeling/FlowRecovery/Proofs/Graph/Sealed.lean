import FlowRecovery.Proofs.Graph.WellFormed

/-! A part of a graph that nothing enters from outside. Such a part is sealed if at most one edge leaves
it as well, from a vertex with two edges at most. Its core is what is inside: the vertices of the part
and the edges between them, with what the edges say beyond their levels and the markers left out, so that
two graphs that agree inside have the same core. -/

namespace FlowRecovery

/-- An edge without its number and its flags. -/
def Edge.bare (e : Edge) : Edge :=
  { id := 0, source := e.source, target := e.target, attrs := { level := e.attrs.level } }

@[simp] theorem Edge.source_bare (e : Edge) : e.bare.source = e.source := rfl

@[simp] theorem Edge.target_bare (e : Edge) : e.bare.target = e.target := rfl

namespace Graph

variable {S : List Int} {n : Nat} {g : Graph} {x : Int}

/-- The edge joins two vertices of `S`. -/
def inside (S : List Int) (e : Edge) : Bool := decide (e.source ∈ S) && decide (e.target ∈ S)

/-- The edge leads out of `S`. -/
def leaves (S : List Int) (e : Edge) : Bool := decide (e.source ∈ S) && !decide (e.target ∈ S)

theorem inside_iff {e : Edge} : inside S e = true ↔ e.source ∈ S ∧ e.target ∈ S := by
  simp [inside]

theorem leaves_iff {e : Edge} : leaves S e = true ↔ e.source ∈ S ∧ e.target ∉ S := by
  simp [leaves]

structure Sealed (S : List Int) (g : Graph) : Prop where
  inward : ∀ e ∈ g.edges, e.target ∈ S → e.source ∈ S
  border : g.edges.countP (leaves S) ≤ 1
  slim : ∀ e ∈ g.edges, leaves S e = true → (g.outs e.source).length ≤ 2

/-- The vertices of `S` among the first `n` operations, with the edges between them. -/
def core (S : List Int) (n : Nat) (g : Graph) : Graph :=
  { ops := (g.ops.take n).map Operation.clearMarkers
    live := g.live.filter fun x => decide (x ∈ S)
    edges := (g.edges.map Edge.bare).filter (inside S)
    nextEdge := 0 }

/-! ### Sealed parts -/

namespace Sealed

theorem outward (h : Sealed S g) {e : Edge} (he : e ∈ g.edges) (hsource : e.source ∉ S) :
    e.target ∉ S :=
  fun htarget => hsource (h.inward e he htarget)

/-- One edge leaves at most. -/
theorem leaves_unique (h : Sealed S g) {e f : Edge} (he : e ∈ g.edges) (hf : f ∈ g.edges)
    (hle : leaves S e = true) (hlf : leaves S f = true) : e = f := by
  have hmem : ∀ x ∈ g.edges, leaves S x = true → x ∈ g.edges.filter (leaves S) :=
    fun x hx hlx => List.mem_filter.mpr ⟨hx, hlx⟩
  have hpos := List.length_pos_of_mem (hmem e he hle)
  have hborder := h.border
  rw [List.countP_eq_length_filter] at hborder
  obtain ⟨only, honly⟩ := List.length_eq_one_iff.mp (Nat.le_antisymm hborder hpos)
  have hfirst := hmem e he hle
  have hsecond := hmem f hf hlf
  rw [honly, List.mem_singleton] at hfirst hsecond
  rw [hfirst, hsecond]

theorem deleteVertices (h : Sealed S g) (ids : List Int) : Sealed S (g.deleteVertices ids).1 where
  inward e he := h.inward e (List.mem_filter.mp he).1
  border := Nat.le_trans (List.Sublist.countP_le List.filter_sublist) h.border
  slim e he hleaves := by
    refine Nat.le_trans ?_ (h.slim e (List.mem_filter.mp he).1 hleaves)
    exact (List.Sublist.filter _ List.filter_sublist).length_le

end Sealed

/-! ### Cores -/

theorem edges_core_of_filter : (g.core S n).edges = (g.edges.filter (inside S)).map Edge.bare := by
  unfold core
  rw [List.filter_map]
  rfl

theorem mem_live_core : x ∈ (g.core S n).live ↔ x ∈ g.live ∧ x ∈ S := by
  simp [core]

theorem target_live_core (hg : g.WellFormed) :
    ∀ e ∈ (g.core S n).edges, e.target ∈ (g.core S n).live := by
  intro e he
  rw [edges_core_of_filter] at he
  obtain ⟨f, hf, rfl⟩ := List.mem_map.mp he
  obtain ⟨hedge, hin⟩ := List.mem_filter.mp hf
  exact mem_live_core.mpr ⟨hg.target_live f hedge, (inside_iff.mp hin).2⟩

theorem outs_core (hx : x ∈ S) :
    (g.core S n).outs x =
      ((g.outs x).filter fun e => decide (e.target ∈ S)).map Edge.bare := by
  unfold outs
  rw [edges_core_of_filter, List.filter_map, List.filter_filter, List.filter_filter]
  refine congrArg (List.map Edge.bare) (List.filter_congr ?_)
  intro e _
  by_cases hsource : e.source = x
  · simp [inside, hsource, hx]
  · simp [hsource]

theorem outs_core_of_forall (hx : x ∈ S) (hin : ∀ e ∈ g.outs x, e.target ∈ S) :
    (g.core S n).outs x = (g.outs x).map Edge.bare := by
  rw [outs_core hx, List.filter_eq_self.mpr fun e he => decide_eq_true (hin e he)]

theorem ins_core (h : Sealed S g) (hx : x ∈ S) :
    (g.core S n).ins x = (g.ins x).map Edge.bare := by
  unfold ins
  rw [edges_core_of_filter, List.filter_map, List.filter_filter]
  refine congrArg (List.map Edge.bare) (List.filter_congr ?_)
  intro e he
  by_cases htarget : e.target = x
  · simp [inside, htarget, hx, h.inward e he (htarget ▸ hx)]
  · simp [htarget]

theorem op?_core (hS : ∀ y ∈ S, 0 ≤ y ∧ y < n) (hx : x ∈ S) :
    (g.core S n).op? x = (g.op? x).map Operation.clearMarkers := by
  have hlt : x.toNat < n := by
    have := hS x hx
    omega
  by_cases hlive : x ∈ g.live
  · rw [op?, op?, if_pos (has_iff.mpr hlive), if_pos (has_iff.mpr (mem_live_core.mpr ⟨hlive, hx⟩))]
    simp [core, hlt]
  · have hlive' : x ∉ (g.core S n).live := fun hmem => hlive (mem_live_core.mp hmem).1
    rw [op?, op?, has_eq_false hlive, has_eq_false hlive']
    rfl

/-- What does not depend on markers can be read off the core. -/
theorem any_op?_core {p : Operation → Bool} (hp : ∀ op, p op.clearMarkers = p op)
    (hS : ∀ y ∈ S, 0 ≤ y ∧ y < n) (hx : x ∈ S) : ((g.core S n).op? x).any p = (g.op? x).any p := by
  rw [op?_core hS hx, Option.any_map]
  exact congrArg (Option.any · (g.op? x)) (funext hp)

theorem core_deleteVertices (ids : List Int) :
    (g.deleteVertices ids).1.core S n = ((g.core S n).deleteVertices ids).1 := by
  unfold core deleteVertices
  simp only [Graph.mk.injEq, true_and, and_true, List.filter_filter, List.filter_map]
  refine ⟨?_, ?_⟩
  · exact List.filter_congr fun x _ => Bool.and_comm ..
  · refine congrArg (List.map Edge.bare) (List.filter_congr ?_)
    intro e _
    exact Bool.and_comm ..

/-- Deleting from a core depends on the vertices of `S` only. -/
theorem deleteVertices_core_congr {ids ids' : List Int} (h : ∀ x ∈ S, x ∈ ids ↔ x ∈ ids') :
    ((g.core S n).deleteVertices ids).1 = ((g.core S n).deleteVertices ids').1 := by
  have hsame : ∀ x ∈ S, ids.contains x = ids'.contains x := by
    intro x hx
    rw [Bool.eq_iff_iff, List.contains_iff_mem, List.contains_iff_mem]
    exact h x hx
  unfold deleteVertices
  simp only [Graph.mk.injEq, true_and, and_true]
  refine ⟨?_, ?_⟩
  · refine List.filter_congr ?_
    intro x hx
    rw [hsame x (mem_live_core.mp hx).2]
  · refine List.filter_congr ?_
    intro e he
    obtain ⟨hsource, htarget⟩ := inside_iff.mp (List.mem_filter.mp he).2
    rw [hsame _ hsource, hsame _ htarget]

end Graph

end FlowRecovery

import FlowRecovery.Proofs.Graph.WellFormed
import FlowRecovery.Reduce.Branches
import FlowRecovery.Reduce.Collapse

/-! Leading edges elsewhere. Both reducing passes take the edges into one vertex and lead them to
another, one as a whole and one edge by edge, with the same result: the edges of the graph keep their
sources and attributes, in some order, and only targets change. A pass makes a list of such moves, and
an edge that led to `x` leads where the moves, one after the other, take `x`. -/

namespace FlowRecovery

/-- Where the moves `ms` take `x`: each takes its first vertex to its second. -/
def lead (ms : List (Int × Int)) (x : Int) : Int :=
  ms.foldl (fun x m => if x = m.1 then m.2 else x) x

section Lead

variable {ms : List (Int × Int)} {x a b : Int}

theorem lead_append (ns : List (Int × Int)) : lead (ms ++ ns) x = lead ns (lead ms x) :=
  List.foldl_append

theorem lead_concat :
    lead (ms ++ [(a, b)]) x = if lead ms x = a then b else lead ms x := by
  rw [lead_append]
  rfl

theorem lead_of_not_mem (h : x ∉ ms.map Prod.fst) : lead ms x = x := by
  induction ms with
  | nil => rfl
  | cons m ms ih =>
    rw [List.map_cons, List.mem_cons, not_or] at h
    simpa [lead, h.1] using ih h.2

/-- What has been moved has been moved to the second vertex of a move. -/
theorem lead_eq_or_mem (ms : List (Int × Int)) : lead ms x = x ∨ lead ms x ∈ ms.map Prod.snd := by
  induction ms generalizing x with
  | nil => exact Or.inl rfl
  | cons m ms ih =>
    rw [List.map_cons, List.mem_cons]
    by_cases hx : x = m.1
    · have hstep : lead (m :: ms) x = lead ms m.2 := by simp [lead, hx]
      rw [hstep]
      rcases ih (x := m.2) with h | h
      · exact Or.inr (Or.inl h)
      · exact Or.inr (Or.inr h)
    · have hstep : lead (m :: ms) x = lead ms x := by simp [lead, hx]
      rw [hstep]
      exact ih.imp_right Or.inr

/-- Nothing is taken to a vertex that has been moved away from. -/
def Settled (ms : List (Int × Int)) : Prop :=
  ∀ x, lead ms x ∉ ms.map Prod.fst

theorem Settled.concat (h : Settled ms) (hb : b ∉ ms.map Prod.fst) (hne : b ≠ a) :
    Settled (ms ++ [(a, b)]) := by
  intro x
  rw [lead_concat, List.map_append, List.mem_append, List.map_singleton, List.mem_singleton]
  split_ifs with hx
  · exact not_or.mpr ⟨hb, hne⟩
  · exact not_or.mpr ⟨h x, hx⟩

end Lead

namespace Graph

variable {α : Type} {view : Attrs → α} {f f' : Int → Int} {g g' g'' : Graph}

/-- What stays of an edge when its target is led elsewhere by `f`. -/
def row (view : Attrs → α) (f : Int → Int) (e : Edge) : Int × α × Int :=
  (e.source, view e.attrs, f e.target)

/-- The edges of `g'` are those of `g` with their targets led elsewhere by `f`, up to their order,
their numbers and what `view` does not show of their attributes. -/
def Moved (view : Attrs → α) (f : Int → Int) (g g' : Graph) : Prop :=
  (g'.edges.map (row view id)).Perm (g.edges.map (row view f))

namespace Moved

theorem refl (g : Graph) : Moved view id g g := List.Perm.refl _

theorem trans (h : Moved view f g g') (h' : Moved view f' g' g'') :
    Moved view (f' ∘ f) g g'' := by
  have hstep := h.map fun p : Int × α × Int => (p.1, p.2.1, f' p.2.2)
  rw [List.map_map, List.map_map] at hstep
  exact List.Perm.trans h' hstep

theorem mem_of_mem (h : Moved view f g g') {e : Edge} (he : e ∈ g'.edges) :
    ∃ e₀ ∈ g.edges, e₀.source = e.source ∧ view e₀.attrs = view e.attrs ∧ f e₀.target = e.target := by
  obtain ⟨e₀, he₀, hrow⟩ := List.mem_map.mp (h.subset (List.mem_map_of_mem he))
  simp only [row, id_eq, Prod.mk.injEq] at hrow
  exact ⟨e₀, he₀, hrow⟩

theorem exists_mem (h : Moved view f g g') {e₀ : Edge} (he₀ : e₀ ∈ g.edges) :
    ∃ e ∈ g'.edges, e.source = e₀.source ∧ view e.attrs = view e₀.attrs ∧ e.target = f e₀.target := by
  obtain ⟨e, he, hrow⟩ := List.mem_map.mp (h.symm.subset (List.mem_map_of_mem he₀))
  simp only [row, id_eq, Prod.mk.injEq] at hrow
  exact ⟨e, he, hrow⟩

/-- Every vertex keeps its edges. -/
theorem outs (h : Moved view f g g') (v : Int) :
    ((g'.outs v).map fun e => (view e.attrs, e.target)).Perm
      ((g.outs v).map fun e => (view e.attrs, f e.target)) := by
  have hkept := (h.filter fun p => decide (p.1 = v)).map Prod.snd
  rw [List.filter_map, List.filter_map, List.map_map, List.map_map] at hkept
  exact hkept

theorem length_outs (h : Moved view f g g') (v : Int) :
    (g'.outs v).length = (g.outs v).length := by
  simpa using (h.outs v).length_eq

/-- A vertex with one edge had that edge before. -/
theorem exists_outs_eq_singleton (h : Moved view f g g') {v : Int} {o : Edge}
    (houts : g'.outs v = [o]) : ∃ o₀, g.outs v = [o₀] ∧ f o₀.target = o.target := by
  have hlen : (g.outs v).length = 1 := by rw [← h.length_outs v, houts, List.length_singleton]
  obtain ⟨o₀, ho₀⟩ := List.length_eq_one_iff.mp hlen
  have hperm := h.outs v
  rw [houts, ho₀, List.map_singleton, List.map_singleton, List.perm_singleton] at hperm
  exact ⟨o₀, ho₀, (Prod.mk.inj (List.singleton_inj.mp hperm)).2.symm⟩

/-- A vertex that nothing is led to is entered no more often than before. -/
theorem length_ins_le (h : Moved view f g g') {v : Int} (hv : ∀ x, f x = v → x = v) :
    (g'.ins v).length ≤ (g.ins v).length := by
  have hkept := (h.filter fun p => decide (p.2.2 = v)).length_eq
  rw [List.filter_map, List.filter_map, List.length_map, List.length_map] at hkept
  have hsub : (g.edges.filter fun e => decide (f e.target = v)).length ≤ (g.ins v).length := by
    refine List.Sublist.length_le (List.monotone_filter_right g.edges ?_)
    intro e he
    exact decide_eq_true (hv e.target (of_decide_eq_true he))
  exact Nat.le_trans (Nat.le_of_eq hkept) hsub

theorem mono {β : Type} (sight : α → β) (h : Moved view f g g') : Moved (sight ∘ view) f g g' := by
  have hseen := h.map fun p : Int × α × Int => (p.1, sight p.2.1, p.2.2)
  rw [List.map_map, List.map_map] at hseen
  exact hseen

end Moved

/-! ### Leading edges elsewhere one by one -/

section Reroute

variable {old new : Int}

theorem link_removeEdge {s t : Int} {a : Attrs} {id : Nat} (hid : id < g.nextEdge) :
    (g.link s t a).removeEdge id = (g.removeEdge id).link s t a := by
  by_cases hst : s ∈ g.live ∧ t ∈ g.live
  · obtain ⟨hs, ht⟩ := hst
    have hne : g.nextEdge ≠ id := Nat.ne_of_gt hid
    rw [link_of_live hs ht, link_of_live (g := g.removeEdge id) hs ht]
    simp [removeEdge, List.filter_append, hne]
  · rw [link_of_not_live hst, link_of_not_live (g := g.removeEdge id) hst]

theorem foldl_link_removeEdge {id : Nat} {es : List Edge} (hid : id < g.nextEdge) :
    (es.foldl (fun g e => g.link e.source new e.attrs) g).removeEdge id =
      es.foldl (fun g e => g.link e.source new e.attrs) (g.removeEdge id) := by
  induction es generalizing g with
  | nil => rfl
  | cons e es ih =>
    rw [List.foldl_cons, List.foldl_cons, ih (Nat.lt_of_lt_of_le hid nextEdge_le_link),
      link_removeEdge hid]

/-- Drawing all new edges before the old ones are removed comes to the same as moving one edge after
the other. -/
theorem redirect_eq_reroute (hg : g.WellFormed) :
    g.redirect old new = Structuring.reroute g old new := by
  have hmoved : ∀ e ∈ g.ins old, e.id < g.nextEdge := fun e he => hg.ids_below e (mem_ins.mp he).1
  unfold redirect Structuring.reroute
  generalize g.ins old = es at hmoved
  clear hg
  induction es generalizing g with
  | nil => rfl
  | cons e es ih =>
    have hfirst : e.id < g.nextEdge := hmoved e (List.mem_cons_self ..)
    simp only [List.foldl_cons] at ih ⊢
    rw [foldl_link_removeEdge (Nat.lt_of_lt_of_le hfirst nextEdge_le_link)]
    refine ih ?_
    intro x hx
    exact Nat.lt_of_lt_of_le (hmoved x (List.mem_cons_of_mem _ hx)) nextEdge_le_link

/-- Moving the edges `es`, whatever they are: a new edge to `new` stands for each. -/
theorem edges_foldl_move (es : List Edge) (hnew : new ∈ g.live)
    (hsource : ∀ e ∈ es, e.source ∈ g.live) (hids : ∀ e ∈ es, e.id < g.nextEdge) :
    ∃ fresh : List Edge,
      (es.foldl (fun g e => (g.link e.source new e.attrs).removeEdge e.id) g).edges =
        g.edges.filter (fun e => e.id ∉ es.map Edge.id) ++ fresh ∧
      fresh.map (row id id) = es.map (row id fun _ => new) := by
  induction es generalizing g with
  | nil => exact ⟨[], by simp, rfl⟩
  | cons e es ih =>
    have hs : e.source ∈ g.live := hsource e (List.mem_cons_self ..)
    obtain ⟨fresh, hedges, hrows⟩ := ih
      (g := (g.link e.source new e.attrs).removeEdge e.id)
      (by simpa using hnew)
      (fun x hx => by simpa using hsource x (List.mem_cons_of_mem _ hx))
      (fun x hx => Nat.lt_of_lt_of_le (hids x (List.mem_cons_of_mem _ hx)) nextEdge_le_link)
    refine ⟨⟨g.nextEdge, e.source, new, e.attrs⟩ :: fresh, ?_, ?_⟩
    · have hlater : g.nextEdge ∉ (e :: es).map Edge.id := by
        intro hmem
        obtain ⟨x, hx, hid⟩ := List.mem_map.mp hmem
        exact Nat.ne_of_lt (hids x hx) hid
      rw [List.map_cons, List.mem_cons, not_or] at hlater
      have hkeep : (fun x : Edge => decide (x.id ∉ (e :: es).map Edge.id)) =
          fun x => decide (x.id ∉ es.map Edge.id) && decide (x.id ≠ e.id) := by
        funext x
        simp [-List.mem_map, Bool.and_comm]
      rw [List.foldl_cons, hedges, removeEdge, edges_link hs hnew, hkeep, ← List.filter_filter,
        List.filter_append, List.filter_append]
      simp [-List.mem_map, hlater.1, hlater.2]
    · rw [List.map_cons, List.map_cons, hrows]
      rfl

/-- The edges that do not lead to `old` stay in front, and the others follow in their order. -/
theorem rows_reroute (hg : g.WellFormed) (old : Int) (hnew : new ∈ g.live) :
    (Structuring.reroute g old new).edges.map (row id id) =
      (g.edges.filter (fun e => !decide (e.target = old))).map (row id id) ++
        (g.ins old).map (row id fun _ => new) := by
  obtain ⟨fresh, hedges, hrows⟩ := edges_foldl_move (g.ins old) hnew
    (fun e he => hg.source_live e (mem_ins.mp he).1) (fun e he => hg.ids_below e (mem_ins.mp he).1)
  have hstay : g.edges.filter (fun e => e.id ∉ (g.ins old).map Edge.id) =
      g.edges.filter (fun e => !decide (e.target = old)) := by
    refine List.filter_congr ?_
    intro e he
    have hiff : e.id ∈ (g.ins old).map Edge.id ↔ e.target = old := by
      constructor
      · intro hmem
        obtain ⟨x, hx, hid⟩ := List.mem_map.mp hmem
        rw [← hg.eq_of_id_eq (mem_ins.mp hx).1 he hid]
        exact (mem_ins.mp hx).2
      · intro htarget
        exact List.mem_map_of_mem (mem_ins.mpr ⟨he, htarget⟩)
    simp [hiff]
  unfold Structuring.reroute
  rw [hedges, hstay, List.map_append, hrows]

theorem moved_reroute (hg : g.WellFormed) (old : Int) (hnew : new ∈ g.live) :
    Moved id (lead [(old, new)]) g (Structuring.reroute g old new) := by
  have hkept : (g.edges.filter (fun e => !decide (e.target = old))).map (row id id) =
      (g.edges.filter (fun e => !decide (e.target = old))).map (row id (lead [(old, new)])) := by
    refine List.map_congr_left ?_
    intro e he
    have hne : e.target ≠ old := by simpa using (List.mem_filter.mp he).2
    simp [row, lead, hne]
  have hled : (g.ins old).map (row id fun _ => new) =
      (g.ins old).map (row id (lead [(old, new)])) := by
    refine List.map_congr_left ?_
    intro e he
    simp [row, lead, (mem_ins.mp he).2]
  unfold Moved
  rw [rows_reroute hg old hnew, hkept, hled, ← List.map_append]
  refine List.Perm.map _ (List.perm_append_comm.trans ?_)
  exact List.filter_append_perm (fun e => decide (e.target = old)) g.edges

/-- One move more. -/
theorem Moved.reroute {ms : List (Int × Int)} {g₀ : Graph} (h : Moved view (lead ms) g₀ g)
    (hg : g.WellFormed) (hnew : new ∈ g.live) :
    Moved view (lead (ms ++ [(old, new)])) g₀ (Structuring.reroute g old new) := by
  have hlead : lead (ms ++ [(old, new)]) = lead [(old, new)] ∘ lead ms := by
    funext x
    rw [lead_append, Function.comp_apply]
  rw [hlead]
  exact h.trans ((moved_reroute hg old hnew).mono view)

theorem live_reroute : (Structuring.reroute g old new).live = g.live := by
  unfold Structuring.reroute
  generalize g.ins old = es
  induction es generalizing g with
  | nil => rfl
  | cons e es ih =>
    rw [List.foldl_cons, ih]
    simp

theorem ops_reroute : (Structuring.reroute g old new).ops = g.ops := by
  unfold Structuring.reroute
  generalize g.ins old = es
  induction es generalizing g with
  | nil => rfl
  | cons e es ih =>
    rw [List.foldl_cons, ih]
    exact ops_link e.attrs

theorem WellFormed.reroute (hg : g.WellFormed) (old new : Int) :
    (Structuring.reroute g old new).WellFormed := by
  unfold Structuring.reroute
  generalize g.ins old = es
  induction es generalizing g with
  | nil => exact hg
  | cons e es ih =>
    rw [List.foldl_cons]
    exact ih ((hg.link e.source new e.attrs).removeEdge e.id)

end Reroute

end Graph

end FlowRecovery

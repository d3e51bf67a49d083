import FlowRecovery.Proofs.Reduce.Branches
import FlowRecovery.Reduce.Minimize

/-! Both passes together contract a built graph, whichever of them are made. What they remove are
jumps, and labels that lead to a removed jump and nowhere else. -/

namespace FlowRecovery.Graph

variable {t : Table} {g g' : Graph} {r : Routine} {stats : BuildStats}

/-- Every removed vertex is a jump, or a label with a removed jump behind it. -/
def RemovesJumps (t : Table) (g g' : Graph) : Prop :=
  ∀ x, Removed g g' x → g.IsJump t x ∨
    g.isLabel x = true ∧ ∃ i, g.outs x = [i] ∧ g.IsJump t i.target ∧ Removed g g' i.target

/-- The vertices of `g'` are vertices of `g`, with the same operations. -/
structure Within (g g' : Graph) : Prop where
  live : ∀ x ∈ g'.live, x ∈ g.live
  ops : g'.ops = g.ops

theorem Within.op? (h : Within g g') {x : Int} (hx : x ∈ g'.live) : g'.op? x = g.op? x := by
  rw [Graph.op?, Graph.op?, if_pos (has_iff.mpr hx), if_pos (has_iff.mpr (h.live x hx)), h.ops]

theorem Within.isLabel (h : Within g g') {x : Int} (hx : x ∈ g'.live) :
    g'.isLabel x = g.isLabel x := by
  rw [Graph.isLabel, Graph.isLabel, h.op? hx]

theorem Within.isJump (h : Within g g') {x : Int} (hx : g'.IsJump t x) : g.IsJump t x := by
  obtain ⟨op, hop, hclass⟩ := hx
  exact ⟨op, h.op? (mem_live_of_op? hop) ▸ hop, hclass⟩

/-- What the first pass does, made or not. -/
structure FirstPass (t : Table) (g g' : Graph) (land : Int → Int) : Prop where
  wellFormed : g'.WellFormed
  within : Within g g'
  contraction : Contraction Attrs.flow g g' land
  removes : RemovesJumps t g g'
  single : ∀ x, Removed g g' x → ∃ e, g.outs x = [e]
  labels : ∀ x, g.isLabel x = true → g'.isLabel (land x) = true
  enters : ∀ x, ¬ g.isLabel x = true → (g'.ins x).length ≤ (g.ins x).length

theorem firstPass_refl (hg : g.WellFormed) : FirstPass t g g id where
  wellFormed := hg
  within := ⟨fun _ hx => hx, rfl⟩
  contraction := .refl g
  removes _ hx := absurd hx.1 hx.2
  single _ hx := absurd hx.1 hx.2
  labels _ hx := hx
  enters _ _ := Nat.le_refl _

theorem Collapsing.firstPass {done : List Chain} {gm : Graph} (h : Collapsing t g done gm)
    (hg : g.WellFormed) :
    FirstPass t g (gm.deleteVertices (doomed done)).1 (Collapsing.landing done) := by
  have hmem : ∀ x, x ∈ (gm.deleteVertices (doomed done)).1.live ↔ x ∈ g.live ∧ x ∉ doomed done := by
    intro x
    rw [mem_live_deleteVertices, h.live]
  refine ⟨h.wellFormed.deleteVertices _, ⟨fun x hx => ((hmem x).mp hx).1, h.ops⟩,
    (h.contraction hg).mono Attrs.flow, ?_, ?_, ?_, ?_⟩
  · intro x hx
    obtain ⟨c, hc, rfl | rfl⟩ := mem_doomed.mp (mem_of_removed h.live hx)
    · exact Or.inl (h.stands c hc).jump
    · obtain ⟨i, hi, htarget⟩ := (h.stands c hc).enter
      have hjump := (h.stands c hc).jump
      have hlive : c.jump ∈ g.live := mem_live_of_op? hjump.choose_spec.1
      refine Or.inr ⟨(h.stands c hc).label, i, hi, htarget ▸ hjump, ?_⟩
      rw [htarget]
      refine ⟨hlive, fun hleft => ((hmem _).mp hleft).2 ?_⟩
      exact mem_doomed.mpr ⟨c, hc, Or.inl rfl⟩
  · intro x hx
    obtain ⟨e, he, -⟩ := h.exists_outs_eq (mem_of_removed h.live hx)
    exact ⟨e, he⟩
  · intro x hx
    have hland := (h.landing_mem (mem_live_of_isLabel hx)).2
    rw [isLabel, op?_deleteVertices hland, h.landing_label hx]
    exact (isLabel_congr h.live h.ops _).trans (h.isLabel_lead hx)
  · intro x hx
    refine Nat.le_trans (length_ins_deleteVertices_le x) (h.moved.length_ins_le ?_)
    exact fun y hy => h.eq_of_lead_eq hy hx

/-- The graph between the passes. -/
def collapsed (g : Graph) (t : Table) (p : Passes) : Graph :=
  if p.skipCollapse then g else (g.collapse t).1

theorem graph_minimize (p : Passes) :
    (g.minimize t p).graph =
      if p.skipBranches then g.collapsed t p else ((g.collapsed t p).structureBranches t).graph := by
  unfold minimize collapsed
  cases p.skipCollapse <;> cases p.skipBranches <;> rfl

theorem fault_minimize (p : Passes) :
    (g.minimize t p).fault =
      if p.skipBranches then none else ((g.collapsed t p).structureBranches t).fault := by
  unfold minimize collapsed
  cases p.skipCollapse <;> cases p.skipBranches <;> rfl

theorem exists_firstPass (h : r.build t = .ok (g, stats)) (p : Passes) :
    ∃ land, FirstPass t g (g.collapsed t p) land := by
  obtain ⟨hg, hfalls⟩ := wellFormed_of_build h
  unfold collapsed
  split_ifs
  · exact ⟨id, firstPass_refl hg⟩
  · obtain ⟨done, gm, hdone, heq⟩ := exists_collapsing hg hfalls (t := t)
    rw [heq]
    exact ⟨_, hdone.firstPass hg⟩

/-- The second pass removes jumps only. -/
theorem FirstPass.then_structureBranches {land : Int → Int} (h : FirstPass t g g' land)
    (hfault : (g'.structureBranches t).fault = none) :
    (∃ land', Contraction Attrs.flow g (g'.structureBranches t).graph land') ∧
      RemovesJumps t g (g'.structureBranches t).graph := by
  obtain ⟨land', hsecond⟩ := exists_secondPass h.wellFormed hfault
  refine ⟨⟨_, h.contraction.trans hsecond.contraction⟩, ?_⟩
  intro x hx
  by_cases hlive : x ∈ g'.live
  · exact Or.inl (h.within.isJump (hsecond.jumps x ⟨hlive, hx.2⟩))
  · refine (h.removes x ⟨hx.1, hlive⟩).imp_right ?_
    rintro ⟨hlabel, i, hi, hjump, hgone⟩
    exact ⟨hlabel, i, hi, hjump, hsecond.contraction.removed_mono hgone⟩

theorem contraction_minimize {p : Passes} (h : r.build t = .ok (g, stats))
    (hfault : (g.minimize t p).fault = none) :
    (∃ land, Contraction Attrs.flow g (g.minimize t p).graph land) ∧
      RemovesJumps t g (g.minimize t p).graph := by
  obtain ⟨land, hfirst⟩ := exists_firstPass h p
  rw [fault_minimize] at hfault
  rw [graph_minimize]
  split_ifs at hfault ⊢
  · exact ⟨⟨land, hfirst.contraction⟩, hfirst.removes⟩
  · exact hfirst.then_structureBranches hfault

end FlowRecovery.Graph

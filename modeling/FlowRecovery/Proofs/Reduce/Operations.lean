import FlowRecovery.Proofs.Graph.Operations
import FlowRecovery.Proofs.Reduce.Verdicts

/-! Reducing graphs that differ in markers only. Collapsing looks at the actions of operations, and
structuring clears the markers of all vertices before it looks at anything. So both passes do the same to
such graphs; behind structuring not even the markers of vertices differ, while an operation that is no
vertex any more may still have the markers of an earlier run. -/

namespace FlowRecovery

open FlowRecovery.Graph

variable {g : Graph} {ops : List Operation} {t : Table}

namespace Graph

/-! ### Edges -/

theorem redirect_withOps (old new : Int) :
    (g.withOps ops).redirect old new = (g.redirect old new).withOps ops := by
  have hins : (g.withOps ops).ins old = g.ins old := rfl
  unfold redirect
  simp only [hins]
  rw [foldl_withOps fun _ _ => link_withOps .., foldl_withOps fun _ _ => removeEdge_withOps _]

theorem ops_redirect (old new : Int) : (g.redirect old new).ops = g.ops := by
  have hown : (g.withOps g.ops).redirect old new = (g.redirect old new).withOps g.ops :=
    redirect_withOps old new
  have hops := congrArg Graph.ops hown
  exact hops

theorem reroute_withOps (pred dest : Int) :
    Structuring.reroute (g.withOps ops) pred dest = (Structuring.reroute g pred dest).withOps ops := by
  unfold Structuring.reroute
  exact foldl_withOps (fun g e => by rw [link_withOps, removeEdge_withOps]) (g.ins pred)

theorem AgreesOn.reroute (h : g.AgreesOn ops) (pred dest : Int) :
    (Structuring.reroute g pred dest).AgreesOn ops := by
  intro x hx
  rw [live_reroute] at hx
  rw [ops_reroute]
  exact h x hx

theorem spread_withOps (origin : Int) (fuel : Nat) (queue : List (Int × Nat)) (hops : Hops) :
    (g.withOps ops).spread origin fuel queue hops = g.spread origin fuel queue hops := by
  induction fuel generalizing queue hops with
  | zero => rfl
  | succ fuel ih =>
    cases queue with
    | nil => rfl
    | cons q queue =>
      unfold spread
      simp only [ih]
      rfl

theorem converge_withOps (origin : Int) (elseArm ifArm : Edge) :
    (g.withOps ops).converge origin elseArm ifArm = g.converge origin elseArm ifArm := by
  have hsearch : ∀ arm, (g.withOps ops).armSearch origin arm = g.armSearch origin arm := by
    intro arm
    simp only [armSearch, spread_withOps]
    rfl
  simp only [converge, hsearch, live_withOps]

/-! ### Collapsing -/

section Collapse

variable (h : ops.map Operation.action = g.ops.map Operation.action)

include h

theorem sameActions_withOps : SameActions g (g.withOps ops) := ⟨rfl, h⟩

theorem chain?_withOps (v : Int) : (g.withOps ops).chain? t v = g.chain? t v := by
  have hsame := sameActions_withOps h
  have hins : (g.withOps ops).ins v = g.ins v := rfl
  have houts : (g.withOps ops).outs v = g.outs v := rfl
  unfold chain?
  simp only [hsame.any_op? (p := fun op => t.classify op = .jump) (fun _ => rfl), hins, houts,
    hsame.isLabel]

theorem collapseFrom_withOps (vs : List Int) :
    collapseFrom t vs (g.withOps ops) =
      ((collapseFrom t vs g).1.withOps ops, (collapseFrom t vs g).2) := by
  induction vs generalizing g with
  | nil => rfl
  | cons v vs ih =>
    unfold collapseFrom
    rw [chain?_withOps h]
    cases g.chain? t v with
    | none => exact ih h
    | some c =>
      simp only [redirect_withOps]
      rw [ih (h.trans (congrArg (List.map Operation.action) (ops_redirect _ _).symm))]

theorem collapse_withOps :
    (g.withOps ops).collapse t = ((g.collapse t).1.withOps ops, (g.collapse t).2) := by
  unfold collapse
  simp only [live_withOps, collapseFrom_withOps h]
  rfl

end Collapse

/-! ### Structuring -/

theorem exists_foldl_clearMarkers (vs : List Int) :
    ∃ ops', vs.foldl clearMarkers g = g.withOps ops' := by
  induction vs generalizing g with
  | nil => exact ⟨g.ops, rfl⟩
  | cons v vs ih =>
    obtain ⟨ops', hops'⟩ := ih (g := g.clearMarkers v)
    refine ⟨ops', ?_⟩
    rw [List.foldl_cons, hops']
    unfold clearMarkers updateOp
    split_ifs <;> rfl

/-- Once all markers are cleared, operations with the same actions agree. -/
theorem exists_clearAllMarkers_withOps (hg : g.WellFormed)
    (h : ops.map Operation.action = g.ops.map Operation.action) :
    ∃ ops', (g.withOps ops).clearAllMarkers = g.clearAllMarkers.withOps ops' ∧
      g.clearAllMarkers.AgreesOn ops' := by
  obtain ⟨ops₁, hops₁⟩ := exists_foldl_clearMarkers (g := g) g.live
  obtain ⟨ops₂, hops₂⟩ := exists_foldl_clearMarkers (g := g.withOps ops) g.live
  have hfirst : g.clearAllMarkers = g.withOps ops₁ := hops₁
  have hsecond : (g.withOps ops).clearAllMarkers = g.withOps ops₂ := hops₂
  refine ⟨ops₂, by rw [hfirst, hsecond, withOps_withOps], ?_⟩
  have hwf : (g.withOps ops).WellFormed := hg.withOps (by simpa using congrArg List.length h)
  have hop : ∀ x, (g.withOps ops).clearAllMarkers.op? x = g.clearAllMarkers.op? x := by
    intro x
    rw [op?_clearAllMarkers hg, op?_clearAllMarkers hwf]
    have hmap := (sameActions_withOps h).map_op? x
    have hclear : ∀ o : Option Operation,
        o.map Operation.clearMarkers = (o.map Operation.action).map fun a => ⟨a, []⟩ := by
      intro o
      rw [Option.map_map]
      rfl
    rw [hclear, hclear, hmap]
  intro x hx
  have hlive : x ∈ g.live := by rwa [hfirst, live_withOps] at hx
  have hx' := hop x
  rw [hfirst, hsecond, op?, op?, has_withOps, has_withOps, if_pos (has_iff.mpr hlive),
    if_pos (has_iff.mpr hlive)] at hx'
  rw [hfirst]
  exact hx'

end Graph

namespace Structuring

/-- The state with other operations. -/
def withOps (s : Structuring) (ops : List Operation) : Structuring :=
  { s with graph := s.graph.withOps ops }

@[simp] theorem gone_withOps (s : Structuring) : (s.withOps ops).gone = s.gone := rfl

@[simp] theorem fault_withOps (s : Structuring) : (s.withOps ops).fault = s.fault := rfl

/-- Two states that differ only in operations that are no vertices. -/
def Twins (s s' : Structuring) : Prop := ∃ ops, s.graph.AgreesOn ops ∧ s' = s.withOps ops

variable {s s' : Structuring} {v : Vertex} {a : Arms}

namespace Twins

theorem op? (h : Twins s s') (x : Int) : s'.graph.op? x = s.graph.op? x := by
  obtain ⟨ops, hagree, rfl⟩ := h
  exact hagree.op? x

theorem isLabel (h : Twins s s') (x : Int) : s'.graph.isLabel x = s.graph.isLabel x := by
  rw [Graph.isLabel, Graph.isLabel, h.op?]

theorem addMarker (h : Twins s s') (x : Int) (m : Marker) (stats : BranchStats) :
    Twins { s with graph := s.graph.addMarker x m, stats }
      { s' with graph := s'.graph.addMarker x m, stats } := by
  obtain ⟨ops, hagree, rfl⟩ := h
  obtain ⟨ops', heq, hagree'⟩ := hagree.updateOp x (·.addMarker m)
  exact ⟨ops', hagree', congrArg (fun g => ({ s with graph := g, stats } : Structuring)) heq⟩

theorem opened (h : Twins s s') (v : Vertex) (a : Arms) : Twins (s.opened v a) (s'.opened v a) := by
  have hset : Twins { s with graph := s.graph.setElse a.elseArm.id }
      { s' with graph := s'.graph.setElse a.elseArm.id } := by
    obtain ⟨ops, hagree, rfl⟩ := h
    exact ⟨ops, hagree, rfl⟩
  obtain ⟨ops, -, rfl⟩ := h
  exact hset.addMarker v.id (.ifStart s.stats.found) { s.stats with found := s.stats.found + 1 }

theorem bypass (h : Twins s s') (dest : Int) (e : Edge) :
    Twins (Structuring.bypass t dest s e) (Structuring.bypass t dest s' e) := by
  have hop := h.op? e.source
  obtain ⟨ops, hagree, rfl⟩ := h
  unfold Structuring.bypass
  simp only [hop, gone_withOps]
  split_ifs
  · exact ⟨ops, hagree.reroute _ _, by simp [withOps, reroute_withOps]⟩
  · exact ⟨ops, hagree, rfl⟩

theorem close (h : Twins s s') (id : Nat) (m : Merge) : Twins (s.close t id m) (s'.close t id m) := by
  have hended := h.addMarker m.vertex (.ifEnd id) { s.stats with structured := s.stats.structured + 1 }
  have hstats : s'.stats = s.stats := by
    obtain ⟨ops, -, rfl⟩ := h
    rfl
  unfold Structuring.close
  simp only [List.foldl_cons, List.foldl_nil, hstats]
  exact (hended.bypass m.vertex m.elseIn).bypass m.vertex m.ifIn

theorem skip (h : Twins s s') (vertex : Int) (id : Nat) (reason : SkipReason) :
    Twins (s.skip vertex id reason) (s'.skip vertex id reason) := by
  obtain ⟨ops, hagree, rfl⟩ := h
  exact ⟨ops, hagree, rfl⟩

theorem converge (h : Twins s s') (origin : Int) (elseArm ifArm : Edge) :
    s'.graph.converge origin elseArm ifArm = s.graph.converge origin elseArm ifArm := by
  obtain ⟨ops, hagree, rfl⟩ := h
  exact converge_withOps origin elseArm ifArm

theorem branch (h : Twins s s') (v : Vertex) : Twins (s.branch t v) (s'.branch t v) := by
  have harms' : arms s'.graph v = arms s.graph v := by
    obtain ⟨ops, -, rfl⟩ := h
    rfl
  have hfound : s'.stats.found = s.stats.found := by
    obtain ⟨ops, -, rfl⟩ := h
    rfl
  cases harms : arms s.graph v with
  | error f =>
    obtain ⟨ops, hagree, rfl⟩ := h
    unfold Structuring.branch
    simp only [harms, harms'.trans harms]
    exact ⟨ops, hagree, rfl⟩
  | ok a =>
    have hopened := h.opened v a
    have hmerge : (s'.marked v a).converge v.id a.elseArm a.ifArm =
        (s.marked v a).converge v.id a.elseArm a.ifArm := hopened.converge ..
    rw [branch_of_arms harms, branch_of_arms (harms'.trans harms), hmerge, hfound]
    split
    · exact hopened.skip ..
    · next m _ =>
      have hlabel : (s'.marked v a).isLabel m.vertex = (s.marked v a).isLabel m.vertex :=
        hopened.isLabel m.vertex
      rw [hlabel]
      split_ifs
      · exact hopened.close ..
      · exact hopened.skip ..

theorem scan (h : Twins s s') (vs : List Int) :
    Twins (Structuring.scan t vs s) (Structuring.scan t vs s') := by
  induction vs generalizing s s' with
  | nil => exact h
  | cons x vs ih =>
    have hvertex : s'.graph.vertex? x = s.graph.vertex? x := by rw [vertex?, vertex?, h.op?]
    unfold Structuring.scan
    rw [hvertex]
    split
    · next v _ =>
      have hbranch := h.branch (t := t) v
      have hfault : (s'.branch t v).fault = (s.branch t v).fault := by
        obtain ⟨ops, -, heq⟩ := hbranch
        rw [heq]
        rfl
      simp only [hfault]
      split_ifs
      · exact hbranch
      · exact ih hbranch
      · exact ih h
    · exact ih h

end Twins

end Structuring

namespace Graph

variable (hg : g.WellFormed) (h : ops.map Operation.action = g.ops.map Operation.action)

include hg h

theorem twins_structureBranches :
    (g.structureBranches t).Twins ((g.withOps ops).structureBranches t) := by
  obtain ⟨ops', heq, hagree⟩ := exists_clearAllMarkers_withOps hg h
  have hstart : Structuring.Twins { graph := g.clearAllMarkers }
      { graph := (g.withOps ops).clearAllMarkers } := ⟨ops', hagree, by rw [heq]; rfl⟩
  obtain ⟨ops'', hagree'', hscan⟩ := hstart.scan (t := t) g.live
  unfold structureBranches
  simp only [live_withOps, hscan, Structuring.fault_withOps, Structuring.gone_withOps]
  split_ifs
  · exact ⟨ops'', hagree'', rfl⟩
  · exact ⟨ops'', hagree''.deleteVertices _, rfl⟩

omit h in
/-- Structuring changes markers only, also if it is cut short. -/
theorem actions_structureBranches :
    (g.structureBranches t).graph.ops.map Operation.action = g.ops.map Operation.action := by
  obtain ⟨ms, hs⟩ := (Structuring.Bypassed.start hg).scan (t := t) g.live
  unfold structureBranches
  simp only
  split_ifs
  · exact hs.same.actions
  · exact hs.same.actions

end Graph

/-! ### Both passes -/

namespace Graph

variable {r : Routine} {stats : BuildStats}

theorem actions_minimize (h : r.build t = .ok (g, stats)) (p : Passes) :
    (g.minimize t p).graph.ops.map Operation.action = g.ops.map Operation.action := by
  obtain ⟨land, hfirst⟩ := exists_firstPass h p
  rw [graph_minimize]
  split_ifs
  · rw [hfirst.within.ops]
  · rw [actions_structureBranches hfirst.wellFormed, hfirst.within.ops]

/-- The passes do the same to a built graph with other markers; if branches are structured, the vertices
have the same markers in the end. -/
theorem minimize_withOps (hbuild : r.build t = .ok (g, stats))
    (h : ops.map Operation.action = g.ops.map Operation.action) (p : Passes) :
    ∃ ops', (g.withOps ops).minimize t p =
        { g.minimize t p with graph := (g.minimize t p).graph.withOps ops' } ∧
      ops'.map Operation.action = (g.minimize t p).graph.ops.map Operation.action ∧
      (p.skipBranches = false → (g.minimize t p).graph.AgreesOn ops') := by
  obtain ⟨land, hpass⟩ := exists_firstPass hbuild p
  have hfirst : (if p.skipCollapse then (g.withOps ops, 0) else (g.withOps ops).collapse t) =
      ((g.collapsed t p).withOps ops, (if p.skipCollapse then (g, 0) else g.collapse t).2) := by
    unfold collapsed
    split_ifs
    · rfl
    · exact collapse_withOps h
  have hown : (if p.skipCollapse then (g, 0) else g.collapse t) =
      (g.collapsed t p, (if p.skipCollapse then (g, 0) else g.collapse t).2) := by
    unfold collapsed
    split_ifs <;> rfl
  have hwf := hpass.wellFormed
  have hactions : ops.map Operation.action = (g.collapsed t p).ops.map Operation.action := by
    rw [hpass.within.ops, h]
  unfold minimize
  rw [hfirst, hown]
  generalize g.collapsed t p = g₁ at hwf hactions
  cases hskip : p.skipBranches with
  | true => exact ⟨ops, rfl, hactions, fun hfalse => absurd hfalse.symm Bool.false_ne_true⟩
  | false =>
    obtain ⟨ops', hagree, heq⟩ := twins_structureBranches (t := t) hwf hactions
    simp only [Bool.false_eq_true, if_false]
    refine ⟨ops', by rw [heq]; rfl, ?_, fun _ => hagree⟩
    have hlength : ops.length = g₁.ops.length := by simpa using congrArg List.length hactions
    have hsecond := actions_structureBranches (t := t) (hwf.withOps hlength)
    rw [heq, ops_withOps, hactions] at hsecond
    rw [actions_structureBranches hwf]
    exact hsecond

end Graph

end FlowRecovery

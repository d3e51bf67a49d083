import FlowRecovery.Proofs.Reduce.Collapse
import FlowRecovery.Proofs.Reduce.Converge

/-! Structuring branches contracts the graph. A bypassed jump has an edge to the label that the edges
into it are led to, at the time it is bypassed, so what led to the jump leads to where one of its own
edges leads. Markers and the flags of lower arms change neither the ways of control nor what stands at
a vertex. -/

namespace FlowRecovery

open Relation

variable {t : Table} {g g₀ : Graph} {v : Int}

/-- What structuring leaves of the attributes of an edge. -/
def Attrs.flow (a : Attrs) : Int64 × Bool := (a.level, a.loop)

namespace Graph

/-- The same operations, up to their markers, stand at the same vertices. -/
structure SameActions (g₀ g : Graph) : Prop where
  live : g.live = g₀.live
  actions : g.ops.map Operation.action = g₀.ops.map Operation.action

namespace SameActions

theorem refl (g : Graph) : SameActions g g := ⟨rfl, rfl⟩

theorem trans {g' : Graph} (h : SameActions g₀ g) (h' : SameActions g g') : SameActions g₀ g' :=
  ⟨h'.live.trans h.live, h'.actions.trans h.actions⟩

theorem map_op? (h : SameActions g₀ g) (v : Int) :
    (g.op? v).map Operation.action = (g₀.op? v).map Operation.action := by
  unfold op? has
  rw [h.live]
  split_ifs
  · rw [← List.getElem?_map, h.actions, List.getElem?_map]
  · rfl

/-- What does not depend on markers holds of the operation before and after. -/
theorem any_op? {p : Operation → Bool} (h : SameActions g₀ g) (hp : ∀ op, p op.clearMarkers = p op)
    (v : Int) : (g.op? v).any p = (g₀.op? v).any p := by
  have hany : ∀ g : Graph, (g.op? v).any p =
      ((g.op? v).map Operation.action).any fun a => p (Operation.mk a []) := by
    intro g
    rw [Option.any_map]
    exact congrArg (Option.any · (g.op? v)) (funext fun op => (hp op).symm)
  rw [hany g, hany g₀, h.map_op?]

theorem isLabel (h : SameActions g₀ g) (v : Int) : g.isLabel v = g₀.isLabel v :=
  h.any_op? (fun _ => rfl) v

theorem isJump (h : SameActions g₀ g) : g.IsJump t v ↔ g₀.IsJump t v := by
  rw [← isJump_iff, ← isJump_iff, h.any_op? fun _ => rfl]

theorem updateOp (h : SameActions g₀ g) (id : Int) {f : Operation → Operation}
    (hf : ∀ op, (f op).action = op.action) : SameActions g₀ (g.updateOp id f) := by
  refine ⟨(live_updateOp g id f).trans h.live, ?_⟩
  rw [← h.actions]
  unfold Graph.updateOp
  split_ifs
  · refine List.ext_getElem? ?_
    intro n
    rw [List.getElem?_map, List.getElem?_map, List.getElem?_modify]
    cases g.ops[n]? with
    | none => rfl
    | some op =>
      by_cases hn : id.toNat = n <;> simp [hn, hf]
  · rfl

theorem reroute (h : SameActions g₀ g) (old new : Int) :
    SameActions g₀ (Structuring.reroute g old new) :=
  ⟨live_reroute.trans h.live, by rw [ops_reroute, h.actions]⟩

end SameActions

theorem moved_setElse (g : Graph) (id : Nat) : Moved Attrs.flow (fun x => x) g (g.setElse id) := by
  unfold Moved setElse
  rw [List.map_map]
  refine List.Perm.of_eq (List.map_congr_left ?_)
  intro e _
  simp only [Function.comp_apply]
  split_ifs <;> rfl

theorem foldl_clearMarkers (vs : List Int) (hg : g.WellFormed) :
    SameActions g (vs.foldl clearMarkers g) ∧ (vs.foldl clearMarkers g).edges = g.edges ∧
      (vs.foldl clearMarkers g).WellFormed := by
  induction vs generalizing g with
  | nil => exact ⟨.refl g, rfl, hg⟩
  | cons v vs ih =>
    have hfirst : SameActions g (g.clearMarkers v) := (SameActions.refl g).updateOp v fun _ => rfl
    obtain ⟨hsame, hedges, hwf⟩ := ih (hg.updateOp v Operation.clearMarkers)
    exact ⟨hfirst.trans hsame, hedges.trans (edges_updateOp _ _ _), hwf⟩

end Graph

namespace Structuring

open FlowRecovery.Graph

/-- The scan of `g₀` has led the edges into jumps elsewhere by the moves `ms`. -/
structure Bypassed (t : Table) (g₀ : Graph) (ms : List (Int × Int)) (s : Structuring) : Prop where
  wellFormed : s.graph.WellFormed
  same : SameActions g₀ s.graph
  gone : s.gone = ms.map Prod.fst
  jumps : ∀ m ∈ ms, g₀.IsJump t m.1
  labels : ∀ m ∈ ms, g₀.isLabel m.2 = true
  moved : Moved Attrs.flow (lead ms) g₀ s.graph
  settled : Settled ms
  along : ∀ m ∈ ms, ∃ e ∈ g₀.outs m.1, lead ms e.target = lead ms m.1
  path : ∀ x, ReflTransGen (g₀.Follows (· ∈ ms.map Prod.fst) (lead ms)) x (lead ms x)

namespace Bypassed

variable {ms : List (Int × Int)} {s : Structuring}

theorem start (hg : g₀.WellFormed) : Bypassed t g₀ [] { graph := g₀.clearAllMarkers } := by
  obtain ⟨hsame, hedges, hwf⟩ := foldl_clearMarkers g₀.live hg
  refine ⟨hwf, hsame, rfl, by simp, by simp, ?_, by simp [Settled], by simp, ?_⟩
  · unfold Moved clearAllMarkers
    rw [hedges]
    exact List.Perm.refl _
  · intro x
    exact ReflTransGen.refl

/-- Only the graph and the list of bypassed jumps matter. -/
theorem congr {s' : Structuring} (h : Bypassed t g₀ ms s) (hgraph : s'.graph = s.graph)
    (hgone : s'.gone = s.gone) : Bypassed t g₀ ms s' :=
  ⟨hgraph ▸ h.wellFormed, hgraph ▸ h.same, hgone.trans h.gone, h.jumps, h.labels, hgraph ▸ h.moved,
    h.settled, h.along, h.path⟩

theorem setElse (h : Bypassed t g₀ ms s) (id : Nat) :
    Bypassed t g₀ ms { s with graph := s.graph.setElse id } :=
  { h with
    wellFormed := h.wellFormed.setElse id
    same := ⟨h.same.live, h.same.actions⟩
    moved := h.moved.trans (moved_setElse s.graph id) }

theorem addMarker (h : Bypassed t g₀ ms s) (v : Int) (m : Marker) :
    Bypassed t g₀ ms { s with graph := s.graph.addMarker v m } :=
  { h with
    wellFormed := h.wellFormed.updateOp v _
    same := h.same.updateOp v fun _ => rfl
    moved := by
      have hedges : (s.graph.addMarker v m).edges = s.graph.edges := edges_updateOp _ _ _
      unfold Moved
      rw [hedges]
      exact h.moved }

/-- Bypassing the jump `pred`, which leads to the label `dest`. -/
theorem bypass {pred dest : Int} {stats : BranchStats} (h : Bypassed t g₀ ms s)
    (hjump : g₀.IsJump t pred) (hlabel : g₀.isLabel dest = true) (hnew : pred ∉ s.gone)
    (hstep : s.graph.Step pred dest) :
    Bypassed t g₀ (ms ++ [(pred, dest)])
      { s with graph := reroute s.graph pred dest, gone := s.gone ++ [pred], stats } := by
  have hne : dest ≠ pred := by
    rintro rfl
    exact hjump.not_isLabel hlabel
  have hold : lead ms pred = pred := lead_of_not_mem (h.gone ▸ hnew)
  have hout : dest ∉ ms.map Prod.fst := by
    intro hmem
    obtain ⟨m, hm, rfl⟩ := List.mem_map.mp hmem
    exact (h.jumps m hm).not_isLabel hlabel
  obtain ⟨e, he, hsource, htarget⟩ := hstep
  obtain ⟨e₀, he₀, hfrom, -, hled⟩ := h.moved.mem_of_mem he
  rw [hsource] at hfrom
  rw [htarget] at hled
  have halong : lead (ms ++ [(pred, dest)]) e₀.target = lead (ms ++ [(pred, dest)]) pred := by
    rw [FlowRecovery.lead_concat, FlowRecovery.lead_concat, hled, hold, if_neg hne, if_pos rfl]
  have hgrow : ∀ x y, g₀.Follows (· ∈ ms.map Prod.fst) (lead ms) x y →
      g₀.Follows (· ∈ (ms ++ [(pred, dest)]).map Prod.fst) (lead (ms ++ [(pred, dest)])) x y := by
    rintro x y ⟨⟨hx, hxy⟩, hland⟩
    refine ⟨⟨?_, hxy⟩, by rw [lead_append, lead_append, hland]⟩
    rw [List.map_append]
    exact List.mem_append_left _ hx
  have hroute : ReflTransGen
      (g₀.Follows (· ∈ (ms ++ [(pred, dest)]).map Prod.fst) (lead (ms ++ [(pred, dest)])))
      pred dest := by
    have hrest := ReflTransGen.mono hgrow e₀.target _ (h.path e₀.target)
    rw [hled] at hrest
    exact hrest.head ⟨⟨by simp, e₀, he₀, hfrom, rfl⟩, halong⟩
  refine ⟨h.wellFormed.reroute _ _, h.same.reroute _ _, by simp [h.gone], ?_, ?_, ?_, ?_, ?_,
    path_lead_concat hgrow h.path hroute⟩
  · intro m hm
    rcases List.mem_append.mp hm with hm | hm
    · exact h.jumps m hm
    · rw [List.mem_singleton.mp hm]
      exact hjump
  · intro m hm
    rcases List.mem_append.mp hm with hm | hm
    · exact h.labels m hm
    · rw [List.mem_singleton.mp hm]
      exact hlabel
  · exact h.moved.reroute h.wellFormed (h.same.live ▸ mem_live_of_isLabel hlabel)
  · exact h.settled.concat hout hne
  · intro m hm
    rcases List.mem_append.mp hm with hm | hm
    · obtain ⟨x, hx, hland⟩ := h.along m hm
      refine ⟨x, hx, ?_⟩
      rw [lead_append, lead_append, hland]
    · rw [List.mem_singleton.mp hm]
      exact ⟨e₀, mem_outs.mpr ⟨he₀, hfrom⟩, halong⟩

theorem step_reroute {pred dest u : Int} (hg : g.WellFormed) (hlive : dest ∈ g.live)
    (hne : dest ≠ pred) (h : g.Step u dest) : (reroute g pred dest).Step u dest := by
  obtain ⟨e, he, rfl, htarget⟩ := h
  obtain ⟨e', he', hsource, -, hled⟩ := (moved_reroute hg pred hlive).exists_mem he
  refine ⟨e', he', hsource, ?_⟩
  rw [hled, htarget]
  simp [lead, hne]

/-- Bypassing what an arm's last edge leaves, if it is a jump. What leads to the merge still does, so
the other arm can be bypassed afterwards. -/
theorem bypass_arrival {dest : Int} {arrival : Edge} (h : Bypassed t g₀ ms s)
    (hlabel : g₀.isLabel dest = true) (hstep : s.graph.Step arrival.source dest) :
    (∃ ms', Bypassed t g₀ ms' (Structuring.bypass t dest s arrival)) ∧
      ∀ u, s.graph.Step u dest → (Structuring.bypass t dest s arrival).graph.Step u dest := by
  unfold Structuring.bypass
  simp only
  split_ifs with hbypass
  · rw [Bool.and_eq_true, Bool.not_eq_true', isJump_iff, h.same.isJump] at hbypass
    obtain ⟨hnew, hjump⟩ := hbypass
    have hout : arrival.source ∉ s.gone := by simpa using hnew
    refine ⟨⟨_, h.bypass hjump hlabel hout hstep⟩, ?_⟩
    intro u hu
    refine step_reroute h.wellFormed (h.same.live ▸ mem_live_of_isLabel hlabel) ?_ hu
    rintro rfl
    exact hjump.not_isLabel hlabel
  · exact ⟨⟨ms, h⟩, fun _ hu => hu⟩

theorem close {id : Nat} {m : Merge} (h : Bypassed t g₀ ms s) (hlabel : g₀.isLabel m.vertex = true)
    (hm : s.graph.Entered m) : ∃ ms', Bypassed t g₀ ms' (s.close t id m) := by
  have hmarked := h.addMarker m.vertex (.ifEnd id)
  have hedges : (s.graph.addMarker m.vertex (.ifEnd id)).edges = s.graph.edges := edges_updateOp _ _ _
  have hstep : ∀ u, s.graph.Step u m.vertex →
      (s.graph.addMarker m.vertex (.ifEnd id)).Step u m.vertex := by
    intro u hu
    unfold Step
    rw [hedges]
    exact hu
  have hcounted : Bypassed t g₀ ms
      { s with
        graph := s.graph.addMarker m.vertex (.ifEnd id)
        stats := { s.stats with structured := s.stats.structured + 1 } } :=
    hmarked.congr rfl rfl
  obtain ⟨⟨ms₁, hfirst⟩, hkeep⟩ := hcounted.bypass_arrival hlabel (hstep _ hm.1)
  obtain ⟨hsecond, -⟩ := hfirst.bypass_arrival hlabel (hkeep _ (hstep _ hm.2))
  exact hsecond

end Bypassed

theorem extremes_mem (first : Edge) (rest : List Edge) :
    (extremes first rest).elseArm ∈ first :: rest ∧ (extremes first rest).ifArm ∈ first :: rest := by
  refine List.foldlRecOn rest _ (motive := fun a : Arms => a.elseArm ∈ first :: rest ∧
    a.ifArm ∈ first :: rest) ⟨List.mem_cons_self .., List.mem_cons_self ..⟩ ?_
  rintro a ⟨helse, hif⟩ e he
  have hmem : e ∈ first :: rest := List.mem_cons_of_mem _ he
  refine ⟨?_, ?_⟩
  · simp only
    split_ifs
    · exact hmem
    · exact helse
  · simp only
    split_ifs
    · exact hmem
    · exact hif

theorem arms_eq_ok {v : Vertex} {a : Arms} (h : arms g v = .ok a) :
    ∃ first second rest, g.outs v.id = first :: second :: rest ∧
      a = extremes first (second :: rest) ∧ a.elseArm.attrs.level ≠ a.ifArm.attrs.level := by
  unfold arms at h
  split at h
  · next first second rest houts =>
    simp only at h
    split_ifs at h with hlevel
    obtain rfl := Except.ok.inj h
    exact ⟨first, second, rest, houts, rfl, hlevel⟩
  · simp at h

/-- Both arms are edges of the branch. -/
theorem mem_outs_of_arms {v : Vertex} {a : Arms} (h : arms g v = .ok a) :
    a.elseArm ∈ g.outs v.id ∧ a.ifArm ∈ g.outs v.id := by
  obtain ⟨first, second, rest, houts, rfl, -⟩ := arms_eq_ok h
  rw [houts]
  exact extremes_mem first (second :: rest)

/-- What structuring a branch preserves, the scan preserves. -/
theorem scan_induction {P : Structuring → Prop} (hstep : ∀ s v, P s → P (s.branch t v))
    (vs : List Int) {s : Structuring} (hs : P s) : P (scan t vs s) := by
  induction vs generalizing s with
  | nil => exact hs
  | cons v vs ih =>
    unfold scan
    split
    · next u hu =>
      simp only
      split_ifs
      · exact hstep s u hs
      · exact ih (hstep s u hs)
      · exact ih hs
    · exact ih hs

/-- The graph in which the arms of the branch `v` are followed. -/
def marked (s : Structuring) (v : Vertex) (a : Arms) : Graph :=
  (s.graph.setElse a.elseArm.id).addMarker v.id (.ifStart s.stats.found)

theorem drawn_marked {s : Structuring} {v : Vertex} {a : Arms} {e : Edge}
    (he : e ∈ s.graph.edges) : (s.marked v a).Drawn e := by
  have hedges : (s.marked v a).edges = (s.graph.setElse a.elseArm.id).edges := edges_updateOp _ _ _
  unfold Drawn
  rw [hedges]
  refine ⟨_, List.mem_map_of_mem he, ?_⟩
  split_ifs <;> exact ⟨rfl, rfl, rfl⟩

namespace Bypassed

variable {ms : List (Int × Int)} {s : Structuring}

theorem marked (h : Bypassed t g₀ ms s) (v : Vertex) (a : Arms) :
    Bypassed t g₀ ms { s with graph := s.marked v a } :=
  (h.setElse a.elseArm.id).addMarker v.id (.ifStart s.stats.found)

theorem branch {v : Vertex} (h : Bypassed t g₀ ms s) :
    ∃ ms', Bypassed t g₀ ms' (s.branch t v) := by
  unfold Structuring.branch
  simp only
  split
  · next f harms => exact ⟨ms, h.congr rfl rfl⟩
  · next a harms =>
    obtain ⟨helse, hif⟩ := mem_outs_of_arms harms
    have hmarked : Bypassed t g₀ ms
        { s with
          stats := { s.stats with found := s.stats.found + 1 }
          graph := s.marked v a } :=
      (h.marked v a).congr rfl rfl
    split
    · exact ⟨ms, hmarked.congr rfl rfl⟩
    · next m hm =>
      have hentered := entered_of_converge (drawn_marked (mem_outs.mp helse).1)
        (drawn_marked (mem_outs.mp hif).1) hm
      split_ifs with hlabel
      · exact hmarked.close (by rwa [← hmarked.same.isLabel]) hentered
      · exact ⟨ms, hmarked.congr rfl rfl⟩

theorem scan (vs : List Int) (h : Bypassed t g₀ ms s) :
    ∃ ms', Bypassed t g₀ ms' (Structuring.scan t vs s) :=
  scan_induction (P := fun s => ∃ ms, Bypassed t g₀ ms s) (fun _ _ ⟨_, h⟩ => h.branch) vs ⟨ms, h⟩

/-- Deleting the bypassed jumps contracts the graph. -/
theorem contraction (h : Bypassed t g₀ ms s) (hg : g₀.WellFormed) :
    Contraction Attrs.flow g₀ (s.graph.deleteVertices s.gone).1 (lead ms) := by
  rw [h.gone]
  refine contraction_deleteVertices hg h.same.live h.moved (fun x hx => lead_of_not_mem hx) ?_ ?_
    (fun x => ReflTransGen.mono (fun _ _ hstep => hstep.1) x _ (h.path x)) fun _ _ _ => rfl
  · intro x hx
    refine ⟨?_, h.settled x⟩
    rcases lead_eq_or_mem (x := x) ms with heq | hmem
    · rw [heq]
      exact hx
    · obtain ⟨m, hm, heq⟩ := List.mem_map.mp hmem
      rw [← heq]
      exact mem_live_of_isLabel (h.labels m hm)
  · intro x hx
    obtain ⟨m, hm, rfl⟩ := List.mem_map.mp hx
    exact h.along m hm

end Bypassed

end Structuring

/-- What structuring does: it contracts the graph, removes nothing but jumps, and leaves every label
where it is. -/
structure Graph.SecondPass (t : Table) (g g' : Graph) (land : Int → Int) : Prop where
  wellFormed : g'.WellFormed
  contraction : Contraction Attrs.flow g g' land
  follows : ∀ x, ReflTransGen (g.Follows (Removed g g') land) x (land x)
  jumps : ∀ x, Removed g g' x → g.IsJump t x
  labels : ∀ x, g.isLabel x = true → land x = x ∧ g'.isLabel x = true

theorem Structuring.Bypassed.secondPass {ms : List (Int × Int)} {s : Structuring}
    (h : Bypassed t g ms s) (hg : g.WellFormed) :
    Graph.SecondPass t g (s.graph.deleteVertices s.gone).1 (lead ms) where
  wellFormed := h.wellFormed.deleteVertices _
  contraction := h.contraction hg
  follows x := by
    refine ReflTransGen.mono ?_ x _ (h.path x)
    rintro a b ⟨⟨ha, hstep⟩, hland⟩
    obtain ⟨e, he, rfl, rfl⟩ := hstep
    refine ⟨⟨⟨hg.source_live e he, ?_⟩, e, he, rfl, rfl⟩, hland⟩
    intro hleft
    rw [h.gone] at hleft
    exact (Graph.mem_live_deleteVertices.mp hleft).2 ha
  jumps x hx := by
    have hmem := Graph.mem_of_removed h.same.live hx
    rw [h.gone] at hmem
    obtain ⟨m, hm, rfl⟩ := List.mem_map.mp hmem
    exact h.jumps m hm
  labels x hx := by
    have hout : x ∉ ms.map Prod.fst := by
      intro hmem
      obtain ⟨m, hm, rfl⟩ := List.mem_map.mp hmem
      exact (h.jumps m hm).not_isLabel hx
    refine ⟨lead_of_not_mem hout, ?_⟩
    rw [h.gone, Graph.isLabel, Graph.op?_deleteVertices hout]
    exact (h.same.isLabel x).trans hx

/-- Structuring that comes to its end has bypassed jumps and deletes them. -/
theorem Graph.exists_bypassed (hg : g.WellFormed) (hfault : (g.structureBranches t).fault = none) :
    ∃ ms s, Structuring.Bypassed t g ms s ∧
      (g.structureBranches t).graph = (s.graph.deleteVertices s.gone).1 := by
  obtain ⟨ms, hms⟩ := (Structuring.Bypassed.start hg).scan (t := t) g.live
  refine ⟨ms, _, hms, ?_⟩
  unfold structureBranches at hfault ⊢
  simp only at hfault ⊢
  split_ifs at hfault ⊢ with hscan
  · rw [hfault] at hscan
    simp at hscan
  · rfl

theorem Graph.exists_secondPass (hg : g.WellFormed)
    (hfault : (g.structureBranches t).fault = none) :
    ∃ land, SecondPass t g (g.structureBranches t).graph land := by
  obtain ⟨ms, s, hms, heq⟩ := exists_bypassed hg hfault
  rw [heq]
  exact ⟨lead ms, hms.secondPass hg⟩

end FlowRecovery

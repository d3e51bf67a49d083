import FlowRecovery.Proofs.Flow.Extent
import FlowRecovery.Proofs.Reduce.Arms
import FlowRecovery.Proofs.Reduce.Merge

/-! The shape of a graph of control flow. At most two edges leave a vertex, and their levels differ; no
level is higher than the number of operations that go to a label; and one edge at most enters a vertex
that is not a label. The walk and the joining of trailing code draw every edge to the next position or to
a named label, and keep a seat at each vertex for the edges that joining may still draw. The passes
contract the graph and lead edges to labels only, so the shape stays. -/

namespace FlowRecovery

open FlowRecovery.Graph

variable {r : Routine} {labels : LabelIndex} {t : Table} {w : Walk} {g g' : Graph} {stats : BuildStats}
  {n : Nat} {p q v : Int} {e : Edge}

/-! ### Counting jumps -/

/-- The operation goes to a label, of its own routine or of another. -/
def Operation.isLabelJump (op : Operation) : Bool :=
  match op.action with
  | .labelJump _ _ => true
  | _ => false

namespace Routine

/-- How many operations go to a label. -/
def labelJumps (r : Routine) : Nat := r.ops.countP Operation.isLabelJump

theorem isLabelJump_of_named? (h : (r.named? labels p).isSome = true) :
    (r.opAt? p).any Operation.isLabelJump = true := by
  obtain ⟨q, hq⟩ := Option.isSome_iff_exists.mp h
  obtain ⟨op, hop, hlocal⟩ := Option.bind_eq_some_iff.mp hq
  rw [hop, Option.any_some]
  cases haction : op.action <;> simp_all [Operation.localTarget?, Operation.isLabelJump]

/-- Counting positions counts operations. -/
theorem countP_opAt? (f : Operation → Bool) :
    ((List.range r.ops.length).map Int.ofNat).countP (fun p => (r.opAt? p).any f) =
      r.ops.countP f := by
  have hops : (List.range r.ops.length).map (fun i => r.opAt? (Int.ofNat i)) = r.ops.map some := by
    apply List.ext_getElem?
    intro i
    by_cases hi : i < r.ops.length <;> simp [opAt?, hi]
  calc ((List.range r.ops.length).map Int.ofNat).countP (fun p => (r.opAt? p).any f)
      = ((List.range r.ops.length).map fun i => r.opAt? (Int.ofNat i)).countP (Option.any f) := by
        simp only [List.countP_map, Function.comp_def]
    _ = r.ops.countP f := by
        rw [hops, List.countP_map]
        rfl

theorem one_le_labelJumps (h : (r.named? labels p).isSome = true) : 1 ≤ r.labelJumps := by
  obtain ⟨op, hop, hjump⟩ := (Option.any_eq_true _ _).mp (isLabelJump_of_named? h)
  exact List.countP_pos_iff.mpr ⟨op, List.mem_of_getElem? (opAt?_eq_some hop).2, hjump⟩

/-- Where a label is named there is one, so not every operation goes to a label. -/
theorem labelJumps_lt (hindex : r.labelIndex = .ok labels) (h : (r.named? labels p).isSome = true) :
    r.labelJumps < r.ops.length := by
  obtain ⟨q, hq⟩ := Option.isSome_iff_exists.mp h
  obtain ⟨op, hop, hlabel⟩ := isLabel_of_named? hindex hq
  apply Nat.lt_of_le_of_ne List.countP_le_length
  intro hall
  have hjump := List.countP_eq_length.mp hall op (List.mem_of_getElem? (opAt?_eq_some hop).2)
  cases haction : op.action <;>
    simp_all [Operation.isLabel, Operation.label?, Operation.isLabelJump]

theorem named?_of_side? (h : r.side? labels t p = some q) : r.named? labels p = some q := by
  obtain ⟨label, hside, hfind⟩ := Option.bind_eq_some_iff.mp h
  obtain ⟨op, hop, hown⟩ := Option.bind_eq_some_iff.mp hside
  split_ifs at hown
  simp [named?, hop, hown, hfind]

end Routine

theorem Walk.Inv.raised_le (h : Walk.Inv r labels t w) :
    Walk.raised r labels w.visited ≤ r.labelJumps := by
  have hsub : w.visited.Subperm w.graph.live := h.nodup.subperm fun p hp => h.visited_live p hp
  calc Walk.raised r labels w.visited
      ≤ w.visited.countP (fun p => (r.opAt? p).any Operation.isLabelJump) :=
        List.countP_mono_left fun p _ hp => Routine.isLabelJump_of_named? hp
    _ ≤ w.graph.live.countP (fun p => (r.opAt? p).any Operation.isLabelJump) := hsub.countP_le _
    _ = r.labelJumps := by rw [h.spans.live, Routine.countP_opAt?, Routine.labelJumps]

/-! ### Seats -/

/-- The edges that leave `v`, and a seat for each that may still be drawn there to join trailing code: one
to the next position if nothing leads there, and one to a label if nothing leads to `v` itself. -/
def Graph.seats (g : Graph) (v : Int) : Nat :=
  g.outDegree v + (if g.inDegree (v + 1) = 0 then 1 else 0) +
    if 2 ≤ v ∧ g.inDegree v = 0 then 1 else 0

theorem Walk.Finished.seats_le (h : Walk.Finished r labels t w) (v : Int) : w.graph.seats v ≤ 2 := by
  unfold seats
  by_cases hv : r.Reached labels t v
  · obtain ⟨level, -, hss⟩ := h.successors (h.mem_visited.mpr hv)
    obtain ⟨op, hop, hown⟩ := Routine.successors?_eq_ok hss
    have hinside := Routine.isSome_opAt?_iff.mp (Option.isSome_of_eq_some hop)
    have hdegree : w.graph.outDegree v = (w.graph.drawn v).length := by simp [outDegree, drawn]
    have hentered : ¬ (2 ≤ v ∧ w.graph.inDegree v = 0) := by
      rintro ⟨htwo, hnone⟩
      have := (h.inDegree_pos_iff (by omega)).mpr hv
      omega
    rw [if_neg hentered, hdegree]
    split_ifs with hnone
    · have hfew : (w.graph.drawn v).length ≤ 1 := by
        apply Routine.length_successors_le_one hss
        intro s hs hpos
        have hnext := hv.next ((Routine.leads_iff hss).mpr ⟨s, hs, hpos⟩)
        have := (h.inDegree_pos_iff (by omega)).mpr hnext
        omega
      omega
    · exact Routine.length_successorsOf_le hown
  · have hnone : w.graph.outDegree v = 0 := by
      rw [outDegree, h.outs_eq_nil hv, List.length_nil]
    split_ifs <;> omega

section Link

variable {source target : Int} {a : Attrs}

theorem seats_link_le (hs : source ∈ g.live) (ht : target ∈ g.live) (v : Int) :
    (g.link source target a).seats v ≤ g.seats v + if source = v then 1 else 0 := by
  have hout := outDegree_link (a := a) hs ht v
  have hnext : g.inDegree (v + 1) ≤ (g.link source target a).inDegree (v + 1) := by
    rw [inDegree_link hs ht]
    exact Nat.le_add_right _ _
  have hhere : g.inDegree v ≤ (g.link source target a).inDegree v := by
    rw [inDegree_link hs ht]
    exact Nat.le_add_right _ _
  unfold seats
  rw [hout]
  split_ifs <;> omega

/-- The edge to a position that nothing leads to takes the seat kept in front of it, and the seat kept
there is given up. -/
theorem seats_link_next (hs : target - 1 ∈ g.live) (ht : target ∈ g.live) (htwo : 2 ≤ target)
    (hins : g.inDegree target = 0) (v : Int) :
    ((g.link (target - 1) target a).seats v + if target = v then 1 else 0) ≤ g.seats v := by
  have hout := outDegree_link (a := a) hs ht v
  have hnext := inDegree_link (a := a) hs ht (v + 1)
  have hhere := inDegree_link (a := a) hs ht v
  unfold seats
  by_cases hv : target = v
  · subst hv
    rw [if_neg (by omega)] at hout hnext
    rw [if_pos rfl] at hhere ⊢
    split_ifs <;> omega
  · by_cases hbefore : target - 1 = v
    · obtain rfl : target = v + 1 := by omega
      rw [if_pos (by omega)] at hout hnext
      rw [if_neg hv] at hhere ⊢
      split_ifs <;> omega
    · rw [if_neg (by omega)] at hout hnext
      rw [if_neg hv] at hhere ⊢
      split_ifs <;> omega

end Link

/-- What a round draws takes the seats that were kept for it. -/
theorem Tail.seats_round {s s' : Tail} {pos : Int} (htwo : 2 ≤ pos) (hins : s.graph.inDegree pos = 0)
    (hj : Joined r labels t pos s s') (v : Int) : s'.graph.seats v ≤ s.graph.seats v := by
  cases hj with
  | behind hbefore hpos hside =>
    exact Nat.le_trans (Nat.le_add_right _ _) (seats_link_next hbefore hpos htwo hins v)
  | @beside label target loop hbefore hpos hside hfind htarget =>
    calc ((s.graph.link (pos - 1) pos {}).link pos target { level := 1, loop }).seats v
        ≤ (s.graph.link (pos - 1) pos {}).seats v + if pos = v then 1 else 0 :=
          seats_link_le (by simpa using hpos) (by simpa using htarget) v
      _ ≤ s.graph.seats v := seats_link_next hbefore hpos htwo hins v

/-! ### Edges of a built graph -/

namespace Routine.BuiltFrom

theorem outDegree_le (h : BuiltFrom r t labels w g stats) (v : Int) : g.outDegree v ≤ 2 := by
  have hseats : g.seats v ≤ 2 := by
    rw [h.graph_eq]
    exact Tail.back_induction (P := fun s => s.graph.seats v ≤ 2)
      (fun s s' pos hs htwo hins hj => Nat.le_trans (Tail.seats_round (by omega) hins hj v) hs) _
      (h.finished.seats_le v) h.noFault
  unfold seats at hseats
  omega

/-- An edge has been drawn by the walk, or it joins trailing code. -/
theorem mem_edges_cases (h : BuiltFrom r t labels w g stats) (he : e ∈ g.edges) :
    e ∈ w.graph.edges ∨ ∃ p, e.course ∈ r.joints labels t p := by
  obtain ⟨k, hk, -⟩ := h.exists_extent
  obtain ⟨tail, hedges, hjoined⟩ := hk.edges
  rw [h.graph_eq, hedges, List.mem_append] at he
  refine he.imp_right fun he => ?_
  obtain ⟨p, -, -, hcourse⟩ := hjoined.exists_of_mem he
  exact ⟨p, hcourse⟩

/-- Every edge goes to the next position or to the label that the operation names. -/
theorem target_eq (h : BuiltFrom r t labels w g stats) (he : e ∈ g.edges) :
    e.target = e.source + 1 ∨ r.named? labels e.source = some e.target := by
  rcases h.mem_edges_cases he with he | ⟨p, hcourse⟩
  · obtain ⟨level, -, hss⟩ := h.finished.successors (h.finished.inv.source_visited e he)
    have hdrawn : (⟨e.attrs.level, e.target⟩ : Successor) ∈ w.graph.drawn e.source :=
      List.mem_map_of_mem (mem_outs.mpr ⟨he, rfl⟩)
    rcases mem_successors hss hdrawn with heq | ⟨target, hnamed, heq⟩
    · exact Or.inl (congrArg Successor.pos heq)
    · have htarget : e.target = target := congrArg Successor.pos heq
      rw [hnamed, htarget]
      exact Or.inr rfl
  · rcases mem_joints.mp hcourse with heq | ⟨q, hside, heq⟩
    · obtain ⟨hsource, htarget, -⟩ : e.source = p - 1 ∧ e.target = p ∧ e.attrs.level = 0 := by
        simpa [Edge.course] using heq
      omega
    · obtain ⟨hsource, htarget, -⟩ : e.source = p ∧ e.target = q ∧ e.attrs.level = 1 := by
        simpa [Edge.course] using heq
      rw [hsource, htarget]
      exact Or.inr (named?_of_side? hside)

theorem low_level (h : BuiltFrom r t labels w g stats) (hsize : r.ops.length < 2 ^ 63)
    (he : e ∈ g.edges) :
    Low r.labelJumps e.attrs.level ∧ (e.attrs.level + 1).toInt = e.attrs.level.toInt + 1 := by
  have hroom : ∀ p, (r.named? labels p).isSome = true → Low r.labelJumps e.attrs.level →
      (e.attrs.level + 1).toInt = e.attrs.level.toInt + 1 := by
    intro p hnamed hlow
    have hlt := labelJumps_lt h.index_eq hnamed
    exact hlow.toInt_succ (by omega)
  rcases h.mem_edges_cases he with he | ⟨p, hcourse⟩
  · have hlevel := (Walk.LevelInv.of_ofRoutine hsize h.start h.walk_eq).edges e he
    have hlow := hlevel.mono h.finished.inv.raised_le
    refine ⟨hlow, ?_⟩
    by_cases hnone : Walk.raised r labels w.visited = 0
    · rw [hnone] at hlevel
      exact hlevel.toInt_succ (by decide)
    · obtain ⟨p, -, hnamed⟩ := List.countP_pos_iff.mp (Nat.pos_of_ne_zero hnone)
      exact hroom p hnamed hlow
  · rcases mem_joints.mp hcourse with heq | ⟨q, hside, heq⟩
    · have hlevel : e.attrs.level = 0 := congrArg (·.2.2) heq
      rw [hlevel]
      exact ⟨⟨by decide, by simp⟩, by decide⟩
    · have hlevel : e.attrs.level = 1 := congrArg (·.2.2) heq
      have hnamed : (r.named? labels p).isSome = true := by simp [named?_of_side? hside]
      have hone := one_le_labelJumps hnamed
      rw [hlevel]
      exact ⟨⟨by decide, Int.ofNat_le.mpr hone⟩, by decide⟩

end Routine.BuiltFrom

/-! ### The shape -/

namespace Graph

/-- A graph of control flow with levels up to `n`. -/
structure FlowShape (g : Graph) (n : Nat) : Prop where
  few : ∀ v, g.outDegree v ≤ 2
  ranked : ∀ v, (g.levels v).Nodup
  low : ∀ e ∈ g.edges, Low n e.attrs.level
  room : ∀ e ∈ g.edges, (e.attrs.level + 1).toInt = e.attrs.level.toInt + 1
  enters : ∀ v, ¬ g.isLabel v = true → g.inDegree v ≤ 1

theorem flowShape_of_build (h : r.build t = .ok (g, stats)) (hsize : r.ops.length < 2 ^ 63) :
    g.FlowShape r.labelJumps := by
  rcases Routine.build_eq_ok h with ⟨hops, rfl, -⟩ | ⟨labels, w, hb⟩
  · refine ⟨?_, ?_, ?_, ?_, ?_⟩ <;> simp [outDegree, outs, levels, inDegree, ins, ofOps]
  · exact ⟨hb.outDegree_le, hb.nodup_levels hsize, fun e he => (hb.low_level hsize he).1,
      fun e he => (hb.low_level hsize he).2, fun v hv => hb.length_ins_le hv⟩

/-- A contraction keeps the levels at every vertex, so only the edges that enter vertices are to be
looked at. -/
theorem FlowShape.contract {land : Int → Int} (h : g.FlowShape n) (hg' : g'.WellFormed)
    (hland : Contraction Attrs.flow g g' land)
    (henters : ∀ v, ¬ g'.isLabel v = true → (g'.ins v).length ≤ 1) : g'.FlowShape n := by
  have hlevels : ∀ v ∈ g'.live, (g'.levels v).Perm (g.levels v) :=
    fun v hv => levels_perm (hland.outs v hv)
  have hnone : ∀ v, v ∉ g'.live → g'.levels v = [] := by
    intro v hv
    rw [levels, hg'.outs_eq_nil hv, List.map_nil]
  have hedge : ∀ e ∈ g'.edges, ∃ e₀ ∈ g.edges, e₀.attrs.level = e.attrs.level := by
    intro e he
    have hmem : e.attrs.level ∈ g'.levels e.source :=
      List.mem_map_of_mem (mem_outs.mpr ⟨he, rfl⟩)
    obtain ⟨e₀, he₀, hlevel⟩ := List.mem_map.mp ((hlevels _ (hg'.source_live e he)).subset hmem)
    exact ⟨e₀, (mem_outs.mp he₀).1, hlevel⟩
  refine ⟨?_, ?_, ?_, ?_, henters⟩
  · intro v
    by_cases hv : v ∈ g'.live
    · rw [← length_levels, (hlevels v hv).length_eq, length_levels]
      exact h.few v
    · rw [← length_levels, hnone v hv]
      exact Nat.zero_le 2
  · intro v
    by_cases hv : v ∈ g'.live
    · exact (hlevels v hv).nodup_iff.mpr (h.ranked v)
    · rw [hnone v hv]
      exact List.nodup_nil
  · intro e he
    obtain ⟨e₀, he₀, hlevel⟩ := hedge e he
    rw [← hlevel]
    exact h.low e₀ he₀
  · intro e he
    obtain ⟨e₀, he₀, hlevel⟩ := hedge e he
    rw [← hlevel]
    exact h.room e₀ he₀

theorem FlowShape.collapsed (h : g.FlowShape n) {land : Int → Int} (hfirst : FirstPass t g g' land) :
    g'.FlowShape n :=
  h.contract hfirst.wellFormed hfirst.contraction fun _ hv => hfirst.enters_le_one h.enters hv

/-- Structuring leads edges to labels only. -/
theorem FlowShape.structured (h : g.FlowShape n) (hg : g.WellFormed)
    (hfault : (g.structureBranches t).fault = none) :
    (g.structureBranches t).graph.FlowShape n := by
  obtain ⟨ms, s, hms, heq⟩ := exists_bypassed hg hfault
  have hsecond := hms.secondPass hg
  rw [heq]
  apply h.contract hsecond.wellFormed hsecond.contraction
  intro v hv
  have hlabel : ¬ g.isLabel v = true := fun hv' => hv (hsecond.labels v hv').2
  calc ((s.graph.deleteVertices s.gone).1.ins v).length
      ≤ (s.graph.ins v).length := length_ins_deleteVertices_le v
    _ ≤ (g.ins v).length := hms.length_ins_le hlabel
    _ ≤ 1 := h.enters v hlabel

/-- In a routine whose length is a word, a built graph is a graph of control flow with levels up to the
number of operations that go to a label, and so is what the passes make of it. Its edges go to the next
position, or from an operation that names a label of its own routine to that label. -/
theorem build_flowShape (h : r.build t = .ok (g, stats)) (hsize : r.ops.length < 2 ^ 63) :
    g.FlowShape r.labelJumps ∧ (g.collapse t).1.FlowShape r.labelJumps ∧
      (∀ passes, (g.minimize t passes).fault = none →
        (g.minimize t passes).graph.FlowShape r.labelJumps) ∧
      ∃ labels, r.labelIndex = .ok labels ∧
        ∀ e ∈ g.edges, e.target = e.source + 1 ∨ r.named? labels e.source = some e.target := by
  have hshape := flowShape_of_build h hsize
  have hfirst : ∀ passes, (g.collapsed t passes).FlowShape r.labelJumps ∧
      (g.collapsed t passes).WellFormed := by
    intro passes
    obtain ⟨land, hland⟩ := exists_firstPass h passes
    exact ⟨hshape.collapsed hland, hland.wellFormed⟩
  refine ⟨hshape, (hfirst {}).1, ?_, ?_⟩
  · intro passes hfault
    rw [fault_minimize] at hfault
    rw [graph_minimize]
    split_ifs at hfault ⊢
    · exact (hfirst passes).1
    · exact (hfirst passes).1.structured (hfirst passes).2 hfault
  · rcases Routine.build_eq_ok h with ⟨hops, rfl, -⟩ | ⟨labels, w, hb⟩
    · exact ⟨{}, by rw [Routine.labelIndex, hops]; rfl, by simp [ofOps]⟩
    · exact ⟨labels, hb.index_eq, fun e he => hb.target_eq he⟩

theorem backChains_flowShape :
    ∃ g stats, backChains.build .default = .ok (g, stats) ∧ backChains.ops.length < 2 ^ 63 ∧
      (g.minimize .default {}).fault = none ∧
      g.FlowShape backChains.labelJumps ∧ (g.collapse .default).1.FlowShape backChains.labelJumps ∧
      (∀ passes, (g.minimize .default passes).fault = none →
        (g.minimize .default passes).graph.FlowShape backChains.labelJumps) ∧
      ∃ labels, backChains.labelIndex = .ok labels ∧
        ∀ e ∈ g.edges, e.target = e.source + 1 ∨ backChains.named? labels e.source = some e.target :=
  ⟨_, _, rfl, by decide, rfl, build_flowShape (r := backChains) rfl (by decide)⟩

end Graph

end FlowRecovery

import FlowRecovery.Proofs.Graph.Calls
import FlowRecovery.Proofs.Pipeline.Entry
import FlowRecovery.Proofs.Pipeline.Recover
import FlowRecovery.Proofs.Reduce.Paths

/-! What a run says of its graph adds up. No vertex is listed for deletion twice: each chain has a jump of
its own and so a label of its own, and a jump that has been bypassed is not bypassed again. So the numbers of
chains and of bypassed jumps say how many vertices are gone. A vertex that is left keeps as many edges as it
had, and where every vertex that is gone had one edge, as many edges are gone as vertices. -/

namespace FlowRecovery

open FlowRecovery.Graph

variable {t : Table} {g g' : Graph} {r : Routine} {stats : BuildStats}

namespace Graph

/-! ### Vertices -/

/-- Deleting different vertices. -/
theorem size_deleteVertices {dead : List Int} (hg : g.WellFormed) (hdead : dead.Nodup)
    (hlive : ∀ x ∈ dead, x ∈ g.live) : (g.deleteVertices dead).1.size + dead.length = g.size := by
  have hperm : (g.live.filter (dead.contains ·)).Perm dead := by
    rw [List.perm_ext_iff_of_nodup (hg.live_nodup.filter _) hdead]
    intro x
    simpa using hlive x
  have hsplit := List.length_eq_length_filter_add (l := g.live) (dead.contains ·)
  rw [hperm.length_eq] at hsplit
  unfold size deleteVertices
  rw [hsplit, Nat.add_comm]

section Collapse

variable {seen : List Int} {done : List Chain} {gm : Graph}

theorem length_doomed (done : List Chain) : (doomed done).length = 2 * done.length := by
  simp [doomed, List.length_flatMap, Nat.mul_comm]

theorem Collapsing.jump_ne_label (h : Collapsing t g done gm) {c d : Chain} (hc : c ∈ done)
    (hd : d ∈ done) : c.jump ≠ d.label :=
  fun heq => (h.stands c hc).jump.not_isLabel (heq ▸ (h.stands d hd).label)

/-- Chains with different jumps have nothing in common. -/
theorem Scanning.nodup_doomed (h : Scanning t g seen done gm) (hseen : seen.Nodup) :
    (doomed done).Nodup := by
  have hjumps : done.Pairwise fun c d => c.jump ≠ d.jump :=
    List.pairwise_map.mp (h.jumps.nodup hseen)
  refine List.nodup_flatMap.mpr ⟨?_, ?_⟩
  · intro c hc
    have hne : c.jump ≠ c.label := h.jump_ne_label hc hc
    simp [hne]
  · apply hjumps.imp_of_mem
    intro c d hc hd hne x hx hx'
    -- a label leads to one jump, so chains with one label would have one jump
    have hlabels : c.label ≠ d.label := by
      intro heq
      obtain ⟨i, hi, hjump⟩ := (h.stands c hc).enter
      obtain ⟨i', hi', hjump'⟩ := (h.stands d hd).enter
      rw [heq, hi', List.singleton_inj] at hi
      exact hne (by rw [← hjump, ← hjump', hi])
    rw [List.mem_pair] at hx hx'
    rcases hx with rfl | rfl
    · rcases hx' with heq | heq
      · exact hne heq
      · exact h.jump_ne_label hc hd heq
    · rcases hx' with heq | heq
      · exact h.jump_ne_label hd hc heq.symm
      · exact hlabels heq

theorem size_collapse (hg : g.WellFormed) (hfalls : ∀ l, g.isLabel l = true → g.FallsOn l) :
    (g.collapse t).1.size + 2 * (g.collapse t).2 = g.size := by
  have hscan := scanning_collapseFrom (t := t) hg hfalls
  have hlive : ∀ x ∈ doomed (collapseFrom t g.live g).2, x ∈ (collapseFrom t g.live g).1.live := by
    intro x hx
    rw [hscan.live]
    obtain ⟨c, hc, rfl | rfl⟩ := mem_doomed.mp hx
    · exact mem_live_of_op? (hscan.stands c hc).jump.choose_spec.1
    · exact mem_live_of_isLabel (hscan.stands c hc).label
  have hsize := size_deleteVertices hscan.wellFormed (hscan.nodup_doomed hg.live_nodup) hlive
  rw [length_doomed] at hsize
  calc (g.collapse t).1.size + 2 * (g.collapse t).2
      = (collapseFrom t g.live g).1.size := hsize
    _ = g.size := congrArg List.length hscan.live

end Collapse

end Graph

namespace Structuring

variable {s s₁ s' : Structuring} {v : Vertex} {a : Arms} {verdict : Verdict} {vs : List Int}
  {log : List Judged}

/-- The bypassed jumps are different, and they have been counted. -/
structure Counted (s : Structuring) : Prop where
  nodup : s.gone.Nodup
  removed : s.stats.jumpsRemoved = s.gone.length

namespace Counted

theorem bypass (h : Counted s) (dest : Int) (arrival : Edge) :
    Counted (Structuring.bypass t dest s arrival) := by
  unfold Structuring.bypass
  simp only
  split_ifs with hnew
  · have hout : arrival.source ∉ s.gone := by simpa using (Bool.and_eq_true_iff.mp hnew).1
    refine ⟨?_, ?_⟩
    · rw [← List.concat_eq_append]
      exact h.nodup.concat hout
    · simp [h.removed]
  · exact h

theorem settles (h : Counted s) (hsettles : Settles t s v a verdict s₁) : Counted s₁ := by
  cases hsettles with
  | unmet => exact ⟨h.nodup, h.removed⟩
  | unlabelled => exact ⟨h.nodup, h.removed⟩
  | @closed m _ _ =>
    have hended : Counted
        { s.opened v a with
          graph := (s.opened v a).graph.addMarker m.vertex (.ifEnd s.stats.found)
          stats := { (s.opened v a).stats with structured := (s.opened v a).stats.structured + 1 } } :=
      ⟨h.nodup, h.removed⟩
    exact (hended.bypass m.vertex m.elseIn).bypass m.vertex m.ifIn

theorem scans (hscan : Scans t vs s log s') (h : Counted s) : Counted s' := by
  induction hscan with
  | nil s => exact h
  | pass _ _ ih => exact ih h
  | branch _ _ _ hsettles _ ih => exact ih (h.settles hsettles)

end Counted

end Structuring

namespace Graph

theorem size_structureBranches (hg : g.WellFormed) (hfault : (g.structureBranches t).fault = none) :
    (g.structureBranches t).graph.size + (g.structureBranches t).stats.jumpsRemoved = g.size := by
  obtain ⟨log, s, hscan, heq⟩ := exists_scans hfault
  obtain ⟨ms, hs⟩ := hscan.bypassed (.start hg)
  have hcounted := Structuring.Counted.scans hscan ⟨List.nodup_nil, rfl⟩
  have hlive : ∀ x ∈ s.gone, x ∈ s.graph.live := by
    intro x hx
    rw [hs.same.live]
    exact mem_live_of_op? (hs.isJump_of_mem_gone hx).choose_spec.1
  rw [heq]
  calc (s.graph.deleteVertices s.gone).1.size + s.stats.jumpsRemoved
      = (s.graph.deleteVertices s.gone).1.size + s.gone.length := by rw [hcounted.removed]
    _ = s.graph.size := size_deleteVertices hs.wellFormed hcounted.nodup hlive
    _ = g.size := congrArg List.length hs.same.live

theorem chainsCollapsed_minimize (p : Passes) :
    (g.minimize t p).stats.chainsCollapsed = if p.skipCollapse then 0 else (g.collapse t).2 := by
  unfold minimize
  cases p.skipCollapse <;> cases p.skipBranches <;> rfl

/-- Each chain takes two vertices with it and each bypassed jump one. -/
theorem size_minimize {p : Passes} (h : r.build t = .ok (g, stats))
    (hfault : (g.minimize t p).fault = none) :
    (g.minimize t p).graph.size + 2 * (g.minimize t p).stats.chainsCollapsed +
      (g.minimize t p).stats.branches.jumpsRemoved = g.size := by
  obtain ⟨hg, hfalls⟩ := wellFormed_of_build h
  obtain ⟨land, hfirst⟩ := exists_firstPass h p
  have hchains : (g.collapsed t p).size + 2 * (g.minimize t p).stats.chainsCollapsed = g.size := by
    rw [chainsCollapsed_minimize, collapsed]
    split_ifs
    · rfl
    · exact size_collapse hg hfalls
  have hjumps : (g.minimize t p).graph.size + (g.minimize t p).stats.branches.jumpsRemoved =
      (g.collapsed t p).size := by
    rw [fault_minimize] at hfault
    rw [graph_minimize, stats_minimize]
    split_ifs at hfault ⊢
    · rfl
    · exact size_structureBranches hfirst.wellFormed hfault
  omega

/-! ### Edges -/

theorem edgeCount_eq_sum (hg : g.WellFormed) : g.edgeCount = (g.live.map g.outDegree).sum :=
  length_edges_eq_sum hg hg.source_live

section Contraction

variable {α : Type} {view : Attrs → α} {land : Int → Int}

/-- The vertices are those that are left and those that are not. -/
theorem Contraction.exists_gone (h : Contraction view g g' land) (hg : g.WellFormed)
    (hg' : g'.WellFormed) :
    ∃ gone : List Int, g.live.Perm (g'.live ++ gone) ∧ ∀ x ∈ gone, Removed g g' x := by
  have hkept : (g.live.filter (· ∈ g'.live)).Perm g'.live := by
    rw [List.perm_ext_iff_of_nodup (hg.live_nodup.filter _) hg'.live_nodup]
    intro x
    simpa using h.live_sub x
  refine ⟨g.live.filter fun x => !decide (x ∈ g'.live), ?_, ?_⟩
  · exact (List.filter_append_perm (· ∈ g'.live) g.live).symm.trans (hkept.append_right _)
  · intro x hx
    exact ⟨List.mem_of_mem_filter hx, by simpa using (List.mem_filter.mp hx).2⟩

/-- Where every vertex that is gone had one edge, as many edges are gone as vertices. -/
theorem Contraction.edgeCount_add_size (h : Contraction view g g' land) (hg : g.WellFormed)
    (hg' : g'.WellFormed) (hsingle : ∀ x, Removed g g' x → g.outDegree x = 1) :
    g'.edgeCount + g.size = g.edgeCount + g'.size := by
  obtain ⟨gone, hsplit, hgone⟩ := h.exists_gone hg hg'
  have hleft : g'.live.map g.outDegree = g'.live.map g'.outDegree := by
    apply List.map_congr_left
    intro x hx
    simpa [outDegree] using (h.outs x hx).length_eq.symm
  have hone : gone.map g.outDegree = gone.map fun _ => 1 :=
    List.map_congr_left fun x hx => hsingle x (hgone x hx)
  have hedges : g.edgeCount = g'.edgeCount + gone.length :=
    calc g.edgeCount
        = (g.live.map g.outDegree).sum := edgeCount_eq_sum hg
      _ = ((g'.live ++ gone).map g.outDegree).sum := (hsplit.map _).sum_nat
      _ = (g'.live.map g'.outDegree).sum + gone.length := by
          rw [List.map_append, List.sum_append, hleft, hone]
          simp
      _ = g'.edgeCount + gone.length := by rw [edgeCount_eq_sum hg']
  have hsize : g.size = g'.size + gone.length := by
    rw [size, hsplit.length_eq, List.length_append, size]
  omega

end Contraction

/-- Where jumps end the flow and there is no trailing code, what is removed has one edge. -/
theorem outDegree_of_removed {p : Passes} (ht : t.JumpsEnd) (h : r.build t = .ok (g, stats))
    (htail : stats.tailEdges = 0) (hfault : (g.minimize t p).fault = none) {x : Int}
    (hx : Removed g (g.minimize t p).graph x) : g.outDegree x = 1 := by
  obtain ⟨⟨land, hland⟩, hremoves⟩ := contraction_minimize h hfault
  rcases hremoves x hx with hjump | ⟨-, i, hi, -⟩
  · obtain ⟨e, he, -⟩ := hland.along x hx
    exact Nat.le_antisymm (leavesForLabel_of_build ht h htail hjump).few (List.length_pos_of_mem he)
  · rw [outDegree, hi, List.length_singleton]

theorem edgeCount_minimize {p : Passes} (ht : t.JumpsEnd) (h : r.build t = .ok (g, stats))
    (htail : stats.tailEdges = 0) (hfault : (g.minimize t p).fault = none) :
    (g.minimize t p).graph.edgeCount + g.size = g.edgeCount + (g.minimize t p).graph.size := by
  obtain ⟨⟨land, hland⟩, -⟩ := contraction_minimize h hfault
  exact hland.edgeCount_add_size (wellFormed_of_build h).1 (wellFormed_minimize h hfault)
    fun x hx => outDegree_of_removed ht h htail hfault hx

/-- The counts of a build are those of the graph. -/
theorem stats_of_build (h : r.build t = .ok (g, stats)) :
    stats.vertices = g.size ∧ stats.edges = g.edgeCount := by
  rcases Routine.build_eq_ok h with ⟨-, rfl, rfl⟩ | ⟨labels, w, hb⟩
  · exact ⟨rfl, rfl⟩
  · rw [hb.stats_eq]
    refine ⟨(length_live_of_build h).symm, ?_⟩
    rw [hb.graph_eq]
    rfl

end Graph

/-! ### Runs -/

/-- The vertices that a run leaves are those built less two for each chain collapsed and one for each jump
bypassed. Where jumps end the flow and there is no trailing code, the same goes for the edges. -/
theorem recover_counts {o : Options} {n : Nat} {rr : RoutineResult} (hrr : (o.recover n r).1 = rr)
    (h : rr.graphIfOk? = some g') :
    (g'.size : Int) = rr.build.vertices - 2 * rr.reduce.chainsCollapsed -
        rr.reduce.branches.jumpsRemoved ∧
      ∀ s, o.settings n = .ok s → s.table.JumpsEnd → rr.build.tailEdges = 0 →
        (g'.edgeCount : Int) = rr.build.edges - 2 * rr.reduce.chainsCollapsed -
          rr.reduce.branches.jumpsRemoved := by
  cases hs : o.settings n with
  | error f =>
    rw [Options.recover, hs] at hrr
    rw [← hrr] at h
    simp [RoutineResult.graphIfOk?] at h
  | ok s =>
    rw [Options.recover, hs] at hrr
    have hrec : s.Recovers r rr := hrr ▸ s.recovers_recover r
    cases hrec with
    | unbuilt => simp [RoutineResult.graphIfOk?] at h
    | unstructured => simp [RoutineResult.graphIfOk?] at h
    | ok hbuild hfault =>
      obtain rfl := Option.some.inj h
      obtain ⟨hvertices, hedges⟩ := stats_of_build hbuild
      have hsize := size_minimize hbuild hfault
      refine ⟨?_, ?_⟩
      · simp only
        omega
      · intro s' hs' ht htail
        obtain rfl := Except.ok.inj hs'
        have hcount := edgeCount_minimize ht hbuild htail hfault
        simp only
        omega

/-- Two arms that end in jumps to a chain. -/
def chainedArms : Routine :=
  { id := 1
    ops :=
      [.labelJump { code := { name := "BranchValue" } } ⟨1, 1⟩,
        .plain { code := { name := "Message" } },
        .labelJump { code := { name := "Jump" } } ⟨1, 2⟩, .label 1,
        .plain { code := { name := "Message" } },
        .labelJump { code := { name := "Jump" } } ⟨1, 2⟩, .label 2,
        .labelJump { code := { name := "Jump" } } ⟨1, 3⟩, .label 3,
        .plain { code := { name := "Return" } }] }

theorem chainedArms_counts :
    ∃ rr g' s, (({} : Options).recover 1 chainedArms).1 = rr ∧ rr.graphIfOk? = some g' ∧
      ({} : Options).settings 1 = .ok s ∧ s.table.JumpsEnd ∧ rr.build.tailEdges = 0 ∧
      (rr.build.vertices, rr.reduce.chainsCollapsed, rr.reduce.branches.jumpsRemoved) = (10, 1, 2) ∧
      (g'.size : Int) = rr.build.vertices - 2 * rr.reduce.chainsCollapsed -
        rr.reduce.branches.jumpsRemoved ∧
      (g'.edgeCount : Int) = rr.build.edges - 2 * rr.reduce.chainsCollapsed -
        rr.reduce.branches.jumpsRemoved := by
  have hcounts := recover_counts (o := {}) (n := 1) (r := chainedArms) rfl rfl
  exact ⟨_, _, _, rfl, rfl, rfl, jumpsEnd_default, rfl, rfl, hcounts.1,
    hcounts.2 _ rfl jumpsEnd_default rfl⟩

end FlowRecovery

import FlowRecovery.Proofs.Reduce.Verdicts

/-! Markers come in pairs. Each branch starts one block, numbered by its place among the branches, and
the block ends at one label or, if the branch was skipped, nowhere. The markers at every vertex can be
read off the verdicts: what stood there before the scan is gone, labels get ends only and branches
starts only. -/

namespace FlowRecovery

open FlowRecovery.Graph

variable {t : Table} {g : Graph} {x : Int} {log : List Judged}

/-- The markers at a vertex. -/
def Graph.markers (g : Graph) (x : Int) : List Marker := ((g.op? x).map Operation.markers).getD []

/-! ### What the verdicts say -/

namespace Judged

/-- The numbers of the blocks that start at `x`. -/
def starts (log : List Judged) (x : Int) : List Nat := log.findIdxs (·.vertex = x)

/-- The numbers of the blocks that end at `x`. -/
def ends (log : List Judged) (x : Int) : List Nat := log.findIdxs (·.verdict = .ends x)

/-- The markers that the verdicts put at `x`. -/
def marks (log : List Judged) (x : Int) : List Marker :=
  (starts log x).map (fun k : Nat => .ifStart k) ++ (ends log x).map (fun k : Nat => .ifEnd k)

/-- What is noted of the branch with the number `k` if it is skipped. -/
def skip? (j : Judged) (k : Nat) : Option Skipped :=
  match j.verdict with
  | .ends _ => none
  | .skipped reason => some ⟨j.vertex, k, reason⟩

/-- The branches that are skipped. -/
def skips (log : List Judged) : List Skipped := log.zipIdx.filterMap fun p => p.1.skip? p.2

theorem starts_concat (log : List Judged) (j : Judged) (x : Int) :
    starts (log ++ [j]) x = starts log x ++ if j.vertex = x then [log.length] else [] := by
  simp [starts, List.findIdxs_append]

theorem ends_concat (log : List Judged) (j : Judged) (x : Int) :
    ends (log ++ [j]) x = ends log x ++ if j.verdict = .ends x then [log.length] else [] := by
  simp [ends, List.findIdxs_append]

theorem skips_concat (log : List Judged) (j : Judged) :
    skips (log ++ [j]) = skips log ++ (j.skip? log.length).toList := by
  unfold skips
  rw [List.zipIdx_append, List.filterMap_append]
  cases hskip : j.skip? log.length <;> simp [hskip]

theorem mem_ends {k : Nat} : k ∈ ends log x ↔ ∃ j, log[k]? = some j ∧ j.verdict = .ends x := by
  simp [ends, List.getElem?_eq_some_iff]

theorem mem_starts {k : Nat} : k ∈ starts log x ↔ ∃ j, log[k]? = some j ∧ j.vertex = x := by
  simp [starts, List.getElem?_eq_some_iff]

theorem mem_skips {b : Skipped} :
    b ∈ skips log ↔ log[b.id]? = some ⟨b.vertex, .skipped b.reason⟩ := by
  simp only [skips, List.mem_filterMap, Prod.exists, List.mem_zipIdx_iff_getElem?]
  constructor
  · rintro ⟨⟨vertex, verdict⟩, k, hk, hskip⟩
    cases verdict with
    | ends label => simp [skip?] at hskip
    | skipped reason =>
      obtain rfl := Option.some.inj hskip
      exact hk
  · intro hk
    exact ⟨_, _, hk, rfl⟩

/-- A vertex gets the start of its own block before the end of another, and never both. -/
theorem marks_concat {j : Judged} (h : ends log j.vertex = []) (x : Int) :
    marks (log ++ [j]) x =
      marks log x ++ (if x = j.vertex then [.ifStart log.length] else []) ++
        if j.verdict = .ends x then [.ifEnd log.length] else [] := by
  unfold marks
  rw [starts_concat, ends_concat]
  by_cases hx : j.vertex = x
  · subst hx
    rw [h]
    split_ifs <;> simp
  · rw [if_neg hx, if_neg (Ne.symm hx)]
    split_ifs <;> simp

theorem ends_eq_nil (h : ∀ j ∈ log, j.verdict ≠ .ends x) : ends log x = [] := by
  refine List.findIdxs_eq_nil_iff.mpr ?_
  intro j hj
  simpa using h j hj

theorem starts_eq_nil (h : x ∉ log.map vertex) : starts log x = [] := by
  refine List.findIdxs_eq_nil_iff.mpr ?_
  intro j hj
  have hne : j.vertex ≠ x := fun heq => h (heq ▸ List.mem_map_of_mem hj)
  simpa using hne

/-- A vertex that was met once starts one block. -/
theorem starts_eq_singleton (h : (log.map vertex).Nodup) {k : Nat} {j : Judged}
    (hk : log[k]? = some j) : starts log j.vertex = [k] := by
  have hmem : k ∈ starts log j.vertex := mem_starts.mpr ⟨j, hk, rfl⟩
  have hcount : (starts log j.vertex).length = (log.map vertex).count j.vertex := by
    rw [starts, List.length_findIdxs, List.count, List.countP_map]
    exact List.countP_congr (by simp)
  have hone := List.nodup_iff_count_le_one.mp h j.vertex
  have hpos := List.length_pos_of_mem hmem
  obtain ⟨i, hi⟩ := List.length_eq_one_iff.mp (show (starts log j.vertex).length = 1 by omega)
  rw [hi, List.mem_singleton] at hmem
  rw [hi, hmem]

end Judged

/-! ### Markers at the vertices -/

namespace Graph

theorem markers_of_not_mem (hx : x ∉ g.live) : g.markers x = [] := by
  rw [markers, op?_of_not_mem hx]
  rfl

theorem markers_congr {g' : Graph} (h : g'.op? x = g.op? x) : g'.markers x = g.markers x := by
  rw [markers, markers, h]

theorem markers_addMarker (hg : g.WellFormed) {v : Int} (hv : v ∈ g.live) (m : Marker) (x : Int) :
    (g.addMarker v m).markers x = g.markers x ++ if x = v then [m] else [] := by
  unfold addMarker markers
  rw [op?_updateOp hg]
  split_ifs with hx
  · subst hx
    obtain ⟨op, hop⟩ := exists_op? hg hv
    rw [hop]
    rfl
  · exact (List.append_nil _).symm

theorem markers_clearAllMarkers (hg : g.WellFormed) (x : Int) : g.clearAllMarkers.markers x = [] := by
  unfold markers
  rw [op?_clearAllMarkers hg]
  cases g.op? x <;> rfl

end Graph

namespace Structuring

open Judged

variable {s s₁ s' : Structuring} {v : Vertex} {a : Arms} {verdict : Verdict} {vs : List Int}
  {ms : List (Int × Int)} {g₀ : Graph}

/-- The counts and the markers are what the verdicts say, and blocks end at labels. -/
structure Noted (g₀ : Graph) (log : List Judged) (s : Structuring) : Prop where
  found : s.stats.found = log.length
  total : s.stats.structured + s.stats.skipped.length = log.length
  skipped : s.stats.skipped = skips log
  markers : ∀ x, s.graph.markers x = marks log x
  labels : ∀ j ∈ log, ∀ x, j.verdict = .ends x → g₀.isLabel x = true

theorem markers_opened (hg : s.graph.WellFormed) (hv : v.id ∈ s.graph.live) (x : Int) :
    (s.opened v a).graph.markers x =
      s.graph.markers x ++ if x = v.id then [.ifStart s.stats.found] else [] := by
  have hsame : (s.graph.setElse a.elseArm.id).markers x = s.graph.markers x :=
    markers_congr (op?_congr rfl rfl x)
  rw [← hsame]
  exact markers_addMarker (hg.setElse _) hv _ x

theorem markers_close (hg : s.graph.WellFormed) {id : Nat} {m : Merge}
    (hm : s.graph.isLabel m.vertex = true) (x : Int) :
    (s.close t id m).graph.markers x =
      s.graph.markers x ++ if x = m.vertex then [.ifEnd id] else [] := by
  unfold close
  simp only [List.foldl_cons, List.foldl_nil]
  rw [markers_congr (op?_bypass ..), markers_congr (op?_bypass ..)]
  exact markers_addMarker hg (mem_live_of_isLabel hm) _ x

namespace Noted

theorem start (hg : g.WellFormed) : Noted g [] { graph := g.clearAllMarkers } where
  found := rfl
  total := rfl
  skipped := rfl
  markers := markers_clearAllMarkers hg
  labels := by simp

theorem settles (h : Noted g₀ log s) (hs : Bypassed t g₀ ms s)
    (hbranch : g₀.isBranch t v.id = true) (hsettles : Settles t s v a verdict s₁) :
    Noted g₀ (log ++ [⟨v.id, verdict⟩]) s₁ := by
  have hlive : v.id ∈ s.graph.live := hs.same.live ▸ mem_live_of_isBranch hbranch
  have hends : ends log v.id = [] := by
    refine ends_eq_nil ?_
    intro j hj heq
    exact not_isLabel_of_isBranch hbranch (h.labels j hj _ heq)
  have hopened : ∀ x, (s.opened v a).graph.markers x =
      marks log x ++ if x = v.id then [.ifStart log.length] else [] := by
    intro x
    rw [markers_opened hs.wellFormed hlive, h.markers, h.found]
  have hmarks : ∀ x, marks (log ++ [⟨v.id, verdict⟩]) x = (s.opened v a).graph.markers x ++
      if verdict = .ends x then [.ifEnd log.length] else [] := by
    intro x
    rw [marks_concat hends, hopened]
  have htotal := h.total
  cases hsettles with
  -- skipped branches differ in the reason only
  | unmet | unlabelled =>
    refine ⟨?_, ?_, ?_, ?_, ?_⟩
    · simp [skip, opened, h.found]
    · simp [skip, opened]
      omega
    · rw [skips_concat, ← h.skipped, ← h.found]
      rfl
    · intro x
      rw [hmarks x, if_neg (by simp), List.append_nil]
      rfl
    · intro j hj x hverdict
      rcases List.mem_append.mp hj with hj | hj
      · exact h.labels j hj x hverdict
      · rw [List.mem_singleton.mp hj] at hverdict
        cases hverdict
  | @closed m hmerge hlabel =>
    have hlabel₀ : g₀.isLabel m.vertex = true := by
      rw [← (hs.opened v a).same.isLabel]
      exact hlabel
    refine ⟨?_, ?_, ?_, ?_, ?_⟩
    · simp [close_tally, opened, h.found]
    · simp [close_tally, opened]
      omega
    · rw [skips_concat, ← h.skipped]
      simp [close_tally, opened, skip?]
    · intro x
      rw [markers_close (hs.opened v a).wellFormed hlabel, hmarks x, h.found]
      simp [eq_comm]
    · intro j hj x hverdict
      rcases List.mem_append.mp hj with hj | hj
      · exact h.labels j hj x hverdict
      · rw [List.mem_singleton.mp hj] at hverdict
        cases hverdict
        exact hlabel₀

theorem scans {before : List Judged} (hscan : Scans t vs s log s') (h : Noted g₀ before s)
    (hs : Bypassed t g₀ ms s) : Noted g₀ (before ++ log) s' := by
  induction hscan generalizing before ms with
  | nil s => simpa using h
  | pass _ _ ih => exact ih h hs
  | branch hop hclass harms hsettles _ ih =>
    have hbranch := hs.isBranch_eq _ ▸ isBranch_of_op? hop hclass
    obtain ⟨ms', hs'⟩ := hs.settles harms hsettles
    simpa using ih (h.settles hs hbranch hsettles) hs'

/-- Deleting the bypassed jumps removes no marker. -/
theorem delete (h : Noted g₀ log s) (hs : Bypassed t g₀ ms s)
    (hlog : log.map vertex = g₀.branches t) :
    Noted g₀ log { s with graph := (s.graph.deleteVertices s.gone).1 } := by
  refine { h with markers := ?_ }
  intro x
  by_cases hx : x ∈ s.gone
  · have hjump := hs.isJump_of_mem_gone hx
    have hdead : x ∉ (s.graph.deleteVertices s.gone).1.live := by
      rw [mem_live_deleteVertices]
      exact fun hlive => hlive.2 hx
    have hstarts : starts log x = [] := by
      refine starts_eq_nil ?_
      rw [hlog, mem_branches]
      exact fun hbranch => not_isJump_of_isBranch hbranch hjump
    have hends : ends log x = [] :=
      ends_eq_nil fun j hj heq => hjump.not_isLabel (h.labels j hj x heq)
    rw [markers_of_not_mem hdead, marks, hstarts, hends]
    rfl
  · exact (markers_congr (op?_deleteVertices hx)).trans (h.markers x)

end Noted

/-! ### Pairs -/

/-- Every branch has its own block start, and every block that was closed has one end, at a label. -/
structure MarkersPaired (t : Table) (s : Structuring) : Prop where
  /-- The branches, in their order, carry the block starts `0`, `1`, … and nothing else. -/
  starts : (s.graph.branches t).map s.graph.markers =
    (List.range s.stats.found).map fun k : Nat => [Marker.ifStart k]
  /-- The block of a branch that was not skipped ends once, at a label. -/
  ends : ∀ k < s.stats.found, (∀ b ∈ s.stats.skipped, b.id ≠ k) →
    ∃ x, s.graph.isLabel x = true ∧ (s.graph.markers x).count (.ifEnd k) = 1 ∧
      ∀ y, y ≠ x → .ifEnd k ∉ s.graph.markers y
  /-- The block of a skipped branch ends nowhere. -/
  skipped : ∀ b ∈ s.stats.skipped, b.id < s.stats.found ∧
    (s.graph.branches t)[b.id]? = some b.vertex ∧ ∀ x, .ifEnd b.id ∉ s.graph.markers x
  /-- The ends at a label stand in the order of their numbers, and nothing else stands there. -/
  ascending : ∀ x, s.graph.isLabel x = true → ∃ ks : List Nat, ks.Pairwise (· < ·) ∧
    (∀ k ∈ ks, k < s.stats.found) ∧ s.graph.markers x = ks.map fun k : Nat => .ifEnd k
  plain : ∀ x, s.graph.isLabel x = false → s.graph.isBranch t x = false → s.graph.markers x = []
  total : s.stats.structured + s.stats.skipped.length = s.stats.found

namespace Noted

variable (h : Noted g₀ log s) (hlog : log.map vertex = s.graph.branches t)
  (hlabel : ∀ x, s.graph.isLabel x = g₀.isLabel x)

include h hlabel in
theorem ends_eq_nil_of_not_isLabel (hx : ¬ s.graph.isLabel x = true) : ends log x = [] := by
  refine ends_eq_nil ?_
  intro j hj heq
  exact hx (hlabel x ▸ h.labels j hj x heq)

include hlog in
theorem starts_eq_nil_of_not_isBranch (hx : ¬ s.graph.isBranch t x = true) : starts log x = [] := by
  refine starts_eq_nil ?_
  rw [hlog, mem_branches]
  exact hx

include h hlog in
theorem markers_of_isLabel (hx : s.graph.isLabel x = true) :
    s.graph.markers x = (ends log x).map fun k : Nat => .ifEnd k := by
  have hplain : ¬ s.graph.isBranch t x = true := fun hbranch => not_isLabel_of_isBranch hbranch hx
  rw [h.markers, marks, starts_eq_nil_of_not_isBranch hlog hplain]
  rfl

include h in
/-- A block starts at the branch that was given its verdict … -/
theorem ifStart_mem_markers {k : Nat} :
    .ifStart k ∈ s.graph.markers x ↔ ∃ j, log[k]? = some j ∧ j.vertex = x := by
  rw [← mem_starts, h.markers, marks]
  simp only [List.mem_append, List.mem_map, Marker.ifStart.injEq, Int.ofNat_inj, exists_eq_right, reduceCtorEq,
    and_false, exists_const, or_false]

include h in
/-- … and ends where the verdict says. -/
theorem ifEnd_mem_markers {k : Nat} :
    .ifEnd k ∈ s.graph.markers x ↔ ∃ j, log[k]? = some j ∧ j.verdict = .ends x := by
  rw [← mem_ends, h.markers, marks]
  simp only [List.mem_append, List.mem_map, reduceCtorEq, and_false, exists_const, Marker.ifEnd.injEq,
    Int.ofNat_inj, exists_eq_right, false_or]

include h in
/-- A branch that was not skipped has its block ended. -/
theorem exists_ends {k : Nat} (hk : k < s.stats.found) (hskipped : ∀ b ∈ s.stats.skipped, b.id ≠ k) :
    ∃ v x, log[k]? = some ⟨v, .ends x⟩ := by
  rw [h.found] at hk
  have hj := List.getElem?_eq_getElem hk
  cases hverdict : log[k].verdict with
  | skipped reason =>
    refine absurd rfl (hskipped ⟨log[k].vertex, k, reason⟩ ?_)
    rw [h.skipped, mem_skips, hj, ← hverdict]
  | ends x => exact ⟨log[k].vertex, x, by rw [hj, ← hverdict]⟩

include h hlog hlabel in
theorem paired (hnodup : (s.graph.branches t).Nodup) : s.MarkersPaired t where
  starts := by
    rw [← hlog, List.map_map, h.found]
    refine List.ext_getElem? ?_
    intro k
    rw [List.getElem?_map, List.getElem?_map]
    cases hk : log[k]? with
    | none => simp [List.getElem?_eq_none_iff.mp hk]
    | some j =>
      have hlt : k < log.length := (List.getElem?_eq_some_iff.mp hk).1
      have hbranch : s.graph.isBranch t j.vertex = true := by
        rw [← mem_branches, ← hlog]
        exact List.mem_map_of_mem (List.mem_of_getElem? hk)
      have hmarks : s.graph.markers j.vertex = [.ifStart k] := by
        rw [h.markers, marks, starts_eq_singleton (hlog ▸ hnodup) hk,
          h.ends_eq_nil_of_not_isLabel hlabel (not_isLabel_of_isBranch hbranch)]
        rfl
      simp [hlt, hmarks]
  ends := by
    intro k hk hskipped
    obtain ⟨v, x, hj⟩ := h.exists_ends hk hskipped
    have hx : s.graph.isLabel x = true := hlabel x ▸ h.labels _ (List.mem_of_getElem? hj) x rfl
    refine ⟨x, hx, ?_, ?_⟩
    · refine List.count_eq_one_of_mem ?_ (h.ifEnd_mem_markers.mpr ⟨_, hj, rfl⟩)
      rw [h.markers_of_isLabel hlog hx]
      exact List.nodup_findIdxs.map fun _ _ heq => Int.ofNat_inj.mp (Marker.ifEnd.inj heq)
    · intro y hy hmem
      obtain ⟨j, hj', hends⟩ := h.ifEnd_mem_markers.mp hmem
      obtain rfl := Option.some.inj (hj.symm.trans hj')
      exact hy (Verdict.ends.inj hends).symm
  skipped := by
    intro b hb
    rw [h.skipped, mem_skips] at hb
    refine ⟨h.found ▸ (List.getElem?_eq_some_iff.mp hb).1, ?_, ?_⟩
    · rw [← hlog, List.getElem?_map, hb]
      rfl
    · intro x hmem
      obtain ⟨j, hj, hends⟩ := h.ifEnd_mem_markers.mp hmem
      obtain rfl := Option.some.inj (hb.symm.trans hj)
      cases hends
  ascending := by
    intro x hx
    refine ⟨ends log x, List.pairwise_findIdxs, ?_, h.markers_of_isLabel hlog hx⟩
    intro k hk
    obtain ⟨j, hj, -⟩ := mem_ends.mp hk
    rw [h.found]
    exact (List.getElem?_eq_some_iff.mp hj).1
  plain := by
    intro x hx hx'
    rw [h.markers, marks, starts_eq_nil_of_not_isBranch hlog (by simp [hx']),
      h.ends_eq_nil_of_not_isLabel hlabel (by simp [hx])]
    rfl
  total := h.total.trans h.found.symm

end Noted

/-- What the verdicts of a whole run say of the structured graph. -/
theorem Scans.noted (hscan : Scans t g.live { graph := g.clearAllMarkers } log s)
    (hg : g.WellFormed) : Noted g log { s with graph := (s.graph.deleteVertices s.gone).1 } := by
  obtain ⟨ms, hs⟩ := hscan.bypassed (.start hg)
  exact ((Noted.start hg).scans hscan (.start hg)).delete hs (hscan.vertices (.start hg))

end Structuring

namespace Graph

/-- Structuring pairs the markers, whatever markers the graph had before. -/
theorem structureBranches_pairs_markers (hg : g.WellFormed)
    (hfault : (g.structureBranches t).fault = none) : (g.structureBranches t).MarkersPaired t := by
  obtain ⟨log, s, hscan, heq⟩ := exists_scans hfault
  obtain ⟨ms, hs⟩ := hscan.bypassed (.start hg)
  have hlog : log.map Judged.vertex = g.branches t := hscan.vertices (.start hg)
  rw [heq]
  refine (hscan.noted hg).paired (hlog.trans hs.branches_delete.symm) hs.isLabel_delete ?_
  rw [hs.branches_delete]
  exact hg.live_nodup.filter _

/-- Two branches with one merge, a branch whose arms never meet, and markers of an earlier run: one on
the second branch and one on an operation that gets no marker. -/
def staleMarkers : Graph :=
  { ops :=
      [.labelJump { code := { name := "BranchValue" } } ⟨1, 1⟩,
        { Operation.labelJump { code := { name := "BranchValue" } } ⟨1, 1⟩ with
          markers := [.ifStart 7, .ifEnd 3] },
        .labelJump { code := { name := "Jump" } } ⟨1, 1⟩, .label 1,
        .labelJump { code := { name := "BranchValue" } } ⟨1, 2⟩,
        { Operation.plain { code := { name := "Return" } } with markers := [.ifEnd 7] }, .label 2]
    live := [0, 1, 2, 3, 4, 5, 6]
    edges :=
      [⟨0, 0, 1, {}⟩, ⟨1, 0, 3, { level := 1 }⟩, ⟨2, 1, 2, {}⟩, ⟨3, 1, 3, { level := 1 }⟩,
        ⟨4, 2, 3, {}⟩, ⟨5, 3, 4, {}⟩, ⟨6, 4, 5, {}⟩, ⟨7, 4, 6, { level := 1 }⟩]
    nextEdge := 8 }

theorem staleMarkers_pairs_markers :
    staleMarkers.WellFormed ∧ (staleMarkers.structureBranches .default).fault = none ∧
      (staleMarkers.structureBranches .default).graph.markers 3 = [.ifEnd 0, .ifEnd 1] ∧
      (staleMarkers.structureBranches .default).stats.skipped = [⟨4, 2, .noConvergence⟩] ∧
      (staleMarkers.structureBranches .default).MarkersPaired .default := by
  have hg : staleMarkers.WellFormed :=
    ⟨by decide, by decide, by decide, by decide, by decide, by decide⟩
  exact ⟨hg, rfl, rfl, rfl, structureBranches_pairs_markers hg rfl⟩

end Graph

end FlowRecovery

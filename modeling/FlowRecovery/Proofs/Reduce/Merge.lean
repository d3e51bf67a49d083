import FlowRecovery.Proofs.Flow.Entry
import FlowRecovery.Proofs.Reduce.Minimize

/-! Arms meet at labels. Two different edges enter the vertex where the arms of a branch meet. A vertex
of a built graph that is not a label is entered by one edge at most, and the passes lead edges to labels
only, so no branch is ever skipped because its arms meet elsewhere: of the branches found, each is
structured or has arms that never meet. -/

namespace FlowRecovery

open FlowRecovery.Graph

variable {t : Table} {g g₀ : Graph} {v : Vertex} {a : Arms} {m : Merge}

namespace Structuring

theorem levels_ne_of_arms (h : arms g v = .ok a) :
    a.elseArm.attrs.level ≠ a.ifArm.attrs.level := by
  obtain ⟨-, -, -, -, -, hlevel⟩ := arms_eq_ok h
  exact hlevel

namespace Bypassed

variable {ms : List (Int × Int)} {s : Structuring}

/-- Nothing is led to a vertex that is not a label. -/
theorem length_ins_le (h : Bypassed t g₀ ms s) {x : Int} (hx : ¬ g₀.isLabel x = true) :
    (s.graph.ins x).length ≤ (g₀.ins x).length := by
  refine h.moved.length_ins_le ?_
  intro y hy
  rcases lead_eq_or_mem (x := y) ms with heq | hmem
  · exact heq.symm.trans hy
  · obtain ⟨mv, hmv, heq⟩ := List.mem_map.mp hmem
    exact absurd (hy ▸ heq ▸ h.labels mv hmv) hx

theorem isLabel_of_converge (h : Bypassed t g₀ ms s)
    (henters : ∀ x, ¬ g₀.isLabel x = true → (g₀.ins x).length ≤ 1) (harms : arms s.graph v = .ok a)
    (hm : (s.marked v a).converge v.id a.elseArm a.ifArm = some m) :
    (s.marked v a).isLabel m.vertex = true := by
  obtain ⟨helse, hif⟩ := mem_outs_of_arms harms
  obtain ⟨helse, hsource⟩ := mem_outs.mp helse
  obtain ⟨hif, hsource'⟩ := mem_outs.mp hif
  have hmarked := h.marked v a
  have hids : a.elseArm.id ≠ a.ifArm.id := by
    intro hid
    refine levels_ne_of_arms harms ?_
    rw [h.wellFormed.eq_of_id_eq helse hif hid]
  have htwo := two_le_ins_of_converge (drawn_marked helse) (drawn_marked hif) hm
    hmarked.wellFormed hsource hsource' hids
  by_contra hlabel
  have hlabel' : ¬ g₀.isLabel m.vertex = true := by
    rwa [← hmarked.same.isLabel]
  have hone := Nat.le_trans (hmarked.length_ins_le hlabel') (henters _ hlabel')
  exact absurd (Nat.le_trans htwo hone) (by decide)

end Bypassed

/-! ### Counting branches -/

/-- Every branch found has been structured or has arms that never meet. -/
structure Tally (s : Structuring) : Prop where
  unmet : ∀ k ∈ s.stats.skipped, k.reason = .noConvergence
  found : s.fault = none → s.stats.found = s.stats.structured + s.stats.skipped.length

/-- Bypassing jumps is not counted among the branches. -/
theorem bypass_tally (dest : Int) (s : Structuring) (e : Edge) :
    (bypass t dest s e).stats.found = s.stats.found ∧
      (bypass t dest s e).stats.structured = s.stats.structured ∧
      (bypass t dest s e).stats.skipped = s.stats.skipped ∧
      (bypass t dest s e).fault = s.fault := by
  unfold bypass
  simp only
  split_ifs <;> exact ⟨rfl, rfl, rfl, rfl⟩

theorem close_tally (s : Structuring) (id : Nat) (m : Merge) :
    (s.close t id m).stats.found = s.stats.found ∧
      (s.close t id m).stats.structured = s.stats.structured + 1 ∧
      (s.close t id m).stats.skipped = s.stats.skipped ∧ (s.close t id m).fault = s.fault := by
  unfold close
  simp only [List.foldl_cons, List.foldl_nil, bypass_tally]
  exact ⟨trivial, trivial, trivial, trivial⟩

theorem Tally.branch {ms : List (Int × Int)} {s : Structuring} (hs : Tally s)
    (h : Bypassed t g₀ ms s) (henters : ∀ x, ¬ g₀.isLabel x = true → (g₀.ins x).length ≤ 1) :
    Tally (s.branch t v) := by
  unfold Structuring.branch
  simp only
  split
  · exact ⟨hs.unmet, by simp⟩
  · next a harms =>
    split
    · refine ⟨?_, ?_⟩
      · intro k hk
        rcases List.mem_append.mp hk with hk | hk
        · exact hs.unmet k hk
        · rw [List.mem_singleton.mp hk]
      · intro hfault
        have hfound := hs.found hfault
        simp only [skip, List.length_append, List.length_singleton]
        omega
    · next m hm =>
      have hlabel := h.isLabel_of_converge henters harms hm
      simp only [marked] at hlabel
      rw [if_pos hlabel]
      refine ⟨?_, ?_⟩
      · simp only [close_tally]
        exact hs.unmet
      · simp only [close_tally]
        intro hfault
        have hfound := hs.found hfault
        omega

theorem Tally.scan {ms : List (Int × Int)} {s : Structuring} (hs : Tally s)
    (h : Bypassed t g₀ ms s) (henters : ∀ x, ¬ g₀.isLabel x = true → (g₀.ins x).length ≤ 1)
    (vs : List Int) : Tally (Structuring.scan t vs s) :=
  (scan_induction (P := fun s => Tally s ∧ ∃ ms, Bypassed t g₀ ms s)
    (fun _ _ ⟨hs, _, h⟩ => ⟨hs.branch h henters, h.branch⟩) vs ⟨hs, ms, h⟩).1

theorem Tally.count {s : Structuring} (hs : Tally s) :
    s.stats.count .nonLabelMerge = 0 ∧ s.stats.count .noConvergence = s.stats.skipped.length := by
  unfold BranchStats.count
  refine ⟨?_, ?_⟩
  · refine List.length_eq_zero_iff.mpr (List.filter_eq_nil_iff.mpr ?_)
    intro k hk
    simp [hs.unmet k hk]
  · refine congrArg List.length (List.filter_eq_self.mpr ?_)
    intro k hk
    simp [hs.unmet k hk]

end Structuring

/-! ### Built graphs -/

namespace Graph

variable {r : Routine} {stats : BuildStats} {g' : Graph} {land : Int → Int}

theorem enters_of_build (h : r.build t = .ok (g, stats)) {x : Int} (hx : ¬ g.isLabel x = true) :
    (g.ins x).length ≤ 1 := by
  rcases Routine.build_eq_ok h with ⟨hops, rfl, rfl⟩ | ⟨labels, w, hb⟩
  · exact Nat.zero_le 1
  · exact hb.length_ins_le hx

theorem FirstPass.enters_le_one (h : FirstPass t g g' land)
    (henters : ∀ x, ¬ g.isLabel x = true → (g.ins x).length ≤ 1) {x : Int}
    (hx : ¬ g'.isLabel x = true) : (g'.ins x).length ≤ 1 := by
  by_cases hlive : x ∈ g'.live
  · rw [h.within.isLabel hlive] at hx
    exact Nat.le_trans (h.enters x hx) (henters x hx)
  · rw [h.wellFormed.ins_eq_nil hlive]
    exact Nat.zero_le 1

theorem stats_minimize (p : Passes) :
    (g.minimize t p).stats.branches =
      if p.skipBranches then {} else ((g.collapsed t p).structureBranches t).stats := by
  unfold minimize collapsed
  cases p.skipCollapse <;> cases p.skipBranches <;> rfl

theorem tally_structureBranches (hg : g.WellFormed)
    (henters : ∀ x, ¬ g.isLabel x = true → (g.ins x).length ≤ 1) :
    (g.structureBranches t).Tally := by
  have hstart : Structuring.Tally { graph := g.clearAllMarkers } := ⟨by simp, fun _ => rfl⟩
  have hscan := hstart.scan (Structuring.Bypassed.start hg) henters g.live (t := t)
  unfold structureBranches
  simp only
  split_ifs
  · exact hscan
  · exact ⟨hscan.unmet, hscan.found⟩

/-- The scan of `g` with the vertices `vs` behind it. -/
def scanned (g : Graph) (t : Table) (vs : List Int) : Structuring :=
  Structuring.scan t vs { graph := g.clearAllMarkers }

/-- Whatever vertices have been scanned, the arms of a branch that meet do so at a label. So no branch
is skipped for meeting elsewhere, and every branch found is structured or has arms that never meet. -/
theorem minimize_merges_at_labels {p : Passes} (h : r.build t = .ok (g, stats))
    (hfault : (g.minimize t p).fault = none) :
    (∀ vs v a m, Structuring.arms ((g.collapsed t p).scanned t vs).graph v = .ok a →
      (((g.collapsed t p).scanned t vs).marked v a).converge v.id a.elseArm a.ifArm = some m →
        (((g.collapsed t p).scanned t vs).marked v a).isLabel m.vertex = true) ∧
    (g.minimize t p).stats.nonLabelMerges = 0 ∧
    (g.minimize t p).stats.branches.found =
      (g.minimize t p).stats.branches.structured + (g.minimize t p).stats.unconverged := by
  obtain ⟨land, hfirst⟩ := exists_firstPass h p
  have henters : ∀ x, ¬ (g.collapsed t p).isLabel x = true →
      ((g.collapsed t p).ins x).length ≤ 1 :=
    fun x hx => hfirst.enters_le_one (fun _ => enters_of_build h) hx
  refine ⟨?_, ?_⟩
  · intro vs v a m harms hm
    obtain ⟨ms, hms⟩ := (Structuring.Bypassed.start hfirst.wellFormed).scan (t := t) vs
    exact hms.isLabel_of_converge henters harms hm
  · rw [fault_minimize] at hfault
    unfold ReduceStats.nonLabelMerges ReduceStats.unconverged
    rw [stats_minimize]
    split_ifs at hfault ⊢
    · exact ⟨rfl, rfl⟩
    · have htally := tally_structureBranches (t := t) hfirst.wellFormed henters
      rw [htally.count.1, htally.count.2]
      exact ⟨rfl, htally.found hfault⟩

/-- A branch in one arm of another, with an arm that returns. -/
def earlyReturn : Routine :=
  { id := 1
    ops :=
      [.labelJump { code := { name := "BranchValue" } } ⟨1, 1⟩,
        .labelJump { code := { name := "BranchValue" } } ⟨1, 2⟩,
        .plain { code := { name := "Return" } }, .label 2, .label 1,
        .plain { code := { name := "Return" } }] }

theorem earlyReturn_merges_at_labels :
    ∃ g stats, earlyReturn.build .default = .ok (g, stats) ∧
      (g.minimize .default {}).fault = none ∧
      ((g.minimize .default {}).stats.branches.structured, (g.minimize .default {}).stats.unconverged) =
        (1, 1) ∧
      (∀ vs v a m, Structuring.arms ((g.collapsed .default {}).scanned .default vs).graph v = .ok a →
        (((g.collapsed .default {}).scanned .default vs).marked v a).converge
            v.id a.elseArm a.ifArm = some m →
          (((g.collapsed .default {}).scanned .default vs).marked v a).isLabel m.vertex = true) ∧
      (g.minimize .default {}).stats.nonLabelMerges = 0 ∧
      (g.minimize .default {}).stats.branches.found =
        (g.minimize .default {}).stats.branches.structured +
          (g.minimize .default {}).stats.unconverged :=
  ⟨_, _, rfl, rfl, rfl, minimize_merges_at_labels (r := earlyReturn) (p := {}) rfl rfl⟩

end Graph

end FlowRecovery

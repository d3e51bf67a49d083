import FlowRecovery.Proofs.Flow.Trailing
import FlowRecovery.Proofs.Reduce.Insulation
import FlowRecovery.Proofs.Reduce.Markers

/-! Operations behind a routine that control never comes to. The walk does not enter them, but joining
hangs them on to the operation in front, and that can change what becomes of reached branches in two
ways: arms that never met meet if trailing code leads back to reached code, and a chain is left standing
if trailing code hangs on to its jump. Where neither happens, every reached branch has its block ended at
the same label or is skipped for the same reason, with the operations behind and without them. -/

namespace FlowRecovery

open FlowRecovery.Graph

variable {r : Routine} {extra : List Operation} {labels labels' : LabelIndex} {t : Table} {p : Passes}
  {g g' : Graph} {stats stats' : BuildStats} {v : Int} {d : Verdict}

/-- What a run made of the branch at `v`. -/
def Reduction.Outcome (red : Reduction) (v : Int) : Verdict → Prop
  | .ends x => ∃ k < red.stats.branches.found,
      .ifStart k ∈ red.graph.markers v ∧ .ifEnd k ∈ red.graph.markers x
  | .skipped reason => ∃ k, ⟨v, k, reason⟩ ∈ red.stats.branches.skipped

/-! ### Outcomes and verdicts -/

theorem Structuring.Noted.outcome_iff {log : List Judged} {s : Structuring} {red : Reduction}
    (h : Noted g log s) (hgraph : red.graph = s.graph) (hstats : red.stats.branches = s.stats) :
    red.Outcome v d ↔ ⟨v, d⟩ ∈ log := by
  rw [List.mem_iff_getElem?]
  cases d with
  | ends x =>
    unfold Reduction.Outcome
    rw [hgraph, hstats, h.found]
    refine exists_congr fun k => ?_
    rw [h.ifStart_mem_markers, h.ifEnd_mem_markers]
    constructor
    · rintro ⟨-, ⟨j, hj, hvertex⟩, j', hj', hverdict⟩
      obtain rfl := Option.some.inj (hj.symm.trans hj')
      rw [hj, ← hvertex, ← hverdict]
    · intro hk
      exact ⟨(List.getElem?_eq_some_iff.mp hk).1, ⟨_, hk, rfl⟩, _, hk, rfl⟩
  | skipped reason =>
    unfold Reduction.Outcome
    rw [hstats, h.skipped]
    exact exists_congr fun k => Judged.mem_skips

/-- Without the second pass there are no outcomes. -/
theorem not_outcome_of_skipBranches (hp : p.skipBranches = true) : ¬ (g.minimize t p).Outcome v d := by
  have hstats := stats_minimize (g := g) (t := t) p
  rw [if_pos hp] at hstats
  cases d <;> simp [Reduction.Outcome, hstats]

/-- The outcomes of a run are the verdicts of its scan. -/
theorem exists_scans_of_minimize (hg : (g.collapsed t p).WellFormed) (hp : p.skipBranches = false)
    (hfault : (g.minimize t p).fault = none) :
    ∃ log s, Structuring.Scans t (g.collapsed t p).live
        { graph := (g.collapsed t p).clearAllMarkers } log s ∧
      ∀ v d, (g.minimize t p).Outcome v d ↔ ⟨v, d⟩ ∈ log := by
  have hstats := stats_minimize (g := g) (t := t) p
  have hgraph := graph_minimize (g := g) (t := t) p
  rw [fault_minimize] at hfault
  rw [hp, if_neg Bool.false_ne_true] at hfault hstats hgraph
  obtain ⟨log, s, hscan, heq⟩ := exists_scans hfault
  rw [heq] at hstats hgraph
  exact ⟨log, s, hscan, fun v d => (hscan.noted hg).outcome_iff hgraph hstats⟩

/-! ### Trailing code that stays apart -/

/-- Trailing code does not touch what reached code does. -/
structure Routine.TrailsApart (r : Routine) (labels : LabelIndex) (t : Table) (p : Passes)
    (g : Graph) : Prop where
  /-- No unreached operation leads to a reached one. -/
  inward : ∀ e ∈ g.edges, r.Reached labels t e.target → r.Reached labels t e.source
  /-- If chains are collapsed, no unreached operation hangs on to the jump of a chain. -/
  unchained : p.skipCollapse = false → ∀ e ∈ g.edges, r.Reached labels t e.source →
    ¬ r.Reached labels t e.target → g.IsJump t e.source →
      ∀ i, g.ins e.source = [i] → ¬ g.isLabel i.source = true

/-- Which operations are come to, and so whether the others stay apart, shows in what the walk has
entered. -/
theorem neverAdded_of_visited {w : Walk} (hstart : ((r.followedBy extra).opAt? 0).isSome)
    (hw : Walk.ofRoutine (r.followedBy extra) labels' t = .ok w)
    (hvisited : ∀ q ∈ w.visited, q < r.ops.length) : r.NeverAdded extra labels' t := fun q hq =>
  hvisited q ((Walk.finished_of_ofRoutine hstart hw).mem_visited.mpr hq)

theorem trailsApart_of_visited {w : Walk} (hstart : (r.opAt? 0).isSome)
    (hw : Walk.ofRoutine r labels t = .ok w)
    (hinward : ∀ e ∈ g.edges, e.target ∈ w.visited → e.source ∈ w.visited)
    (hjump : ∀ e ∈ g.edges, leaves w.visited e = true →
      ¬ (g.op? e.source).any (t.classify · = .jump) = true) : r.TrailsApart labels t p g := by
  have hreached := fun q => (Walk.finished_of_ofRoutine hstart hw).mem_visited (p := q)
  refine ⟨?_, ?_⟩
  · intro e he
    rw [← hreached, ← hreached]
    exact hinward e he
  · intro _ e he hsource htarget hclass
    rw [← hreached] at hsource htarget
    exact absurd (isJump_iff.mpr hclass) (hjump e he (leaves_iff.mpr ⟨hsource, htarget⟩))

namespace Routine.BuiltFrom

variable {w w' : Walk}

section Apart

variable (h : BuiltFrom r t labels w g stats) (hapart : r.TrailsApart labels t p g)

include h hapart

theorem sealed_of_trailsApart : Sealed w.visited g := by
  refine h.sealed ?_
  intro e he
  rw [h.finished.mem_visited, h.finished.mem_visited]
  exact hapart.inward e he

theorem unchained_of_trailsApart (hp : p.skipCollapse = false) : Unchained t w.visited g := by
  refine ⟨fun e he hleaves => (h.of_leaves he hleaves).2, ?_⟩
  intro e he hleaves
  rw [leaves_iff, h.finished.mem_visited, h.finished.mem_visited] at hleaves
  exact hapart.unchained hp e he hleaves.1 hleaves.2

theorem sealed_collapsed : Sealed w.visited (g.collapsed t p) := by
  have hsealed := h.sealed_of_trailsApart hapart
  unfold collapsed
  split_ifs with hp
  · exact hsealed
  · exact hsealed.collapse h.visited_inside h.wellFormed
      (h.unchained_of_trailsApart hapart (by simpa using hp))

end Apart

/-- After the first pass reached code looks the same with the added operations and without them. -/
theorem core_collapsed_followedBy (h : BuiltFrom r t labels w g stats)
    (h' : BuiltFrom (r.followedBy extra) t labels' w' g' stats') (htwin : Walk.Twin w w')
    (hapart : r.TrailsApart labels t p g) (hapart' : (r.followedBy extra).TrailsApart labels' t p g') :
    (g.collapsed t p).core w.visited r.ops.length =
      (g'.collapsed t p).core w.visited r.ops.length := by
  have hcore := h.core_followedBy h' htwin
  unfold collapsed
  split_ifs with hp
  · exact hcore
  · have hsealed' := h'.sealed_of_trailsApart hapart'
    have hunchained' := h'.unchained_of_trailsApart hapart' (by simpa using hp)
    rw [htwin.visited] at hsealed' hunchained'
    exact collapse_core_congr h.visited_inside h.wellFormed h'.wellFormed
      (h.sealed_of_trailsApart hapart) hsealed'
      (h.unchained_of_trailsApart hapart (by simpa using hp)) hunchained' hcore

end Routine.BuiltFrom

/-- A branch of the built graph is a branch after the first pass. -/
theorem isBranch_collapsed (h : r.build t = .ok (g, stats)) (p : Passes)
    (hv : g.isBranch t v = true) : (g.collapsed t p).isBranch t v = true := by
  obtain ⟨land, hfirst⟩ := exists_firstPass h p
  obtain ⟨op, hop, hclass⟩ := isBranch_iff.mp hv
  refine isBranch_of_op? ?_ hclass
  rw [hfirst.within.op? (hfirst.mem_live_of_branch hop hclass), hop]

/-- The second pass gives every branch one outcome. -/
theorem existsUnique_outcome (h : r.build t = .ok (g, stats)) (hp : p.skipBranches = false)
    (hfault : (g.minimize t p).fault = none) (hv : g.isBranch t v = true) :
    ∃! d, (g.minimize t p).Outcome v d := by
  obtain ⟨land, hpass⟩ := exists_firstPass h p
  obtain ⟨log, s, hscan, hlog⟩ := exists_scans_of_minimize hpass.wellFormed hp hfault
  have hvertices : log.map Judged.vertex = (g.collapsed t p).branches t :=
    hscan.vertices (.start hpass.wellFormed)
  have hnodup : (log.map Judged.vertex).Nodup := hvertices ▸ hpass.wellFormed.live_nodup.filter _
  have hmem : v ∈ log.map Judged.vertex :=
    hvertices ▸ mem_branches.mpr (isBranch_collapsed h p hv)
  obtain ⟨j, hj, rfl⟩ := List.mem_map.mp hmem
  refine ⟨j.verdict, (hlog _ _).mpr hj, ?_⟩
  intro d hd
  exact congrArg Judged.verdict (List.inj_on_of_nodup_map hnodup ((hlog _ _).mp hd) hj rfl)

/-- Trailing code that stays apart does not change what becomes of reached branches. -/
theorem minimize_same_outcomes (hlabels : r.labelIndex = .ok labels)
    (hlabels' : (r.followedBy extra).labelIndex = .ok labels') (hadded : r.NeverAdded extra labels' t)
    (h : r.build t = .ok (g, stats)) (h' : (r.followedBy extra).build t = .ok (g', stats'))
    (hfault : (g.minimize t p).fault = none) (hfault' : (g'.minimize t p).fault = none)
    (hapart : r.TrailsApart labels t p g) (hapart' : (r.followedBy extra).TrailsApart labels' t p g')
    (hv : (r.followedBy extra).Reached labels' t v) :
    (∀ d, (g.minimize t p).Outcome v d ↔ (g'.minimize t p).Outcome v d) ∧
      (p.skipBranches = false → g.isBranch t v = true → ∃! d, (g.minimize t p).Outcome v d) := by
  refine ⟨?_, fun hp hbranch => existsUnique_outcome h hp hfault hbranch⟩
  -- the first operation is come to, so it is none of those added
  have hfirst : 0 < (r.ops.length : Int) := hadded 0 ⟨hv.1, .refl⟩
  have hops : r.ops ≠ [] := by
    rintro hnil
    simp [hnil] at hfirst
  rcases Routine.build_eq_ok h with ⟨hnil, -⟩ | ⟨l, w, hb⟩
  · exact absurd hnil hops
  rcases Routine.build_eq_ok h' with ⟨hnil, -⟩ | ⟨l', w', hb'⟩
  · simp [Routine.followedBy, hops] at hnil
  obtain rfl := Except.ok.inj (hlabels.symm.trans hb.index_eq)
  obtain rfl := Except.ok.inj (hlabels'.symm.trans hb'.index_eq)
  intro d
  cases hp : p.skipBranches with
  | true => exact iff_of_false (not_outcome_of_skipBranches hp) (not_outcome_of_skipBranches hp)
  | false =>
    have htwin := hb.twin hb' hadded
    obtain ⟨land, hpass⟩ := exists_firstPass h p
    obtain ⟨land', hpass'⟩ := exists_firstPass h' p
    obtain ⟨log, s, hscan, hlog⟩ := exists_scans_of_minimize hpass.wellFormed hp hfault
    obtain ⟨log', s', hscan', hlog'⟩ := exists_scans_of_minimize hpass'.wellFormed hp hfault'
    have hsame := hscan.verdicts_eq hscan' hb.visited_inside hpass.wellFormed hpass'.wellFormed
      (hb.sealed_collapsed hapart) (htwin.visited ▸ hb'.sealed_collapsed hapart')
      (hb.core_collapsed_followedBy hb' htwin hapart hapart')
    have hvisited : v ∈ w.visited := htwin.visited ▸ hb'.finished.mem_visited.mpr hv
    have hiff := congrArg (⟨v, d⟩ ∈ ·) hsame
    simpa [hvisited, hlog, hlog'] using hiff

/-- A branch whose arms meet at a label, the lower one over a jump. -/
def meetingArms : Routine :=
  { id := 1
    ops :=
      [.labelJump { code := { name := "BranchValue" } } ⟨1, 1⟩,
        .plain { code := { name := "Message" } },
        .labelJump { code := { name := "Jump" } } ⟨1, 2⟩, .label 1,
        .plain { code := { name := "Message" } }, .label 2,
        .plain { code := { name := "Return" } }] }

/-- A branch of its own. -/
def ownBranch : List Operation :=
  [.labelJump { code := { name := "BranchValue" } } ⟨1, 3⟩, .plain { code := { name := "Message" } },
    .label 3, .plain { code := { name := "Return" } }]

theorem meetingArms_same_outcomes :
    ∃ g stats g' stats', meetingArms.build .default = .ok (g, stats) ∧
      (meetingArms.followedBy ownBranch).build .default = .ok (g', stats') ∧ stats'.tailEdges = 5 ∧
      (g.minimize .default {}).fault = none ∧ (g'.minimize .default {}).fault = none ∧
      (g'.minimize .default {}).Outcome 0 (.ends 5) ∧ (g'.minimize .default {}).Outcome 7 (.ends 9) ∧
      (∀ d, (g.minimize .default {}).Outcome 0 d ↔ (g'.minimize .default {}).Outcome 0 d) ∧
      (({} : Passes).skipBranches = false → g.isBranch .default 0 = true →
        ∃! d, (g.minimize .default {}).Outcome 0 d) := by
  refine ⟨_, _, _, _, rfl, rfl, rfl, rfl, rfl, ⟨0, by decide⟩, ⟨1, by decide⟩,
    minimize_same_outcomes (r := meetingArms) rfl
      (show (meetingArms.followedBy ownBranch).labelIndex = .ok _ from rfl)
      (neverAdded_of_visited (by decide) rfl ?_) rfl rfl rfl rfl
      (trailsApart_of_visited (by decide) rfl ?_ ?_) (trailsApart_of_visited (by decide) rfl ?_ ?_)
      ⟨by decide, .refl⟩⟩
  all_goals decide

/-- A branch whose arms return, and a label in front of the first return. -/
def partingArms : Routine :=
  { id := 1
    ops :=
      [.labelJump { code := { name := "BranchValue" } } ⟨1, 1⟩, .label 2,
        .plain { code := { name := "Return" } }, .label 1,
        .plain { code := { name := "Return" } }] }

/-- A branch back to the label in front of the first return. -/
def wayBack : List Operation :=
  [.labelJump { code := { name := "BranchValue" } } ⟨1, 2⟩, .plain { code := { name := "Return" } }]

/-- A branch whose arms meet at a label, the lower one over a chain at the end. -/
def lastChain : Routine :=
  { id := 1
    ops :=
      [.labelJump { code := { name := "BranchValue" } } ⟨1, 1⟩,
        .labelJump { code := { name := "Jump" } } ⟨1, 1⟩, .label 2,
        .plain { code := { name := "Return" } }, .label 1,
        .labelJump { code := { name := "Jump" } } ⟨1, 2⟩] }

/-- Control never comes to the operations `extra`, and still the reached branch `v` has the outcome `d`
without them and the outcome `d'` with them. -/
def Routine.ChangedBy (r : Routine) (extra : List Operation) (t : Table) (p : Passes) (v : Int)
    (d d' : Verdict) : Prop :=
  ∃ labels' g stats g' stats', (r.followedBy extra).labelIndex = .ok labels' ∧
    r.NeverAdded extra labels' t ∧ r.build t = .ok (g, stats) ∧
    (r.followedBy extra).build t = .ok (g', stats') ∧ (g.minimize t p).fault = none ∧
    (g'.minimize t p).fault = none ∧ (r.followedBy extra).Reached labels' t v ∧
    g.isBranch t v = true ∧ (g.minimize t p).Outcome v d ∧ (g'.minimize t p).Outcome v d' ∧
    ¬ (g'.minimize t p).Outcome v d

theorem partingArms_changedBy_wayBack :
    partingArms.ChangedBy wayBack .default {} 0 (.skipped .noConvergence) (.ends 1) ∧
      lastChain.ChangedBy [.plain { code := { name := "Message" } }] .default {} 0
        (.ends 2) (.ends 4) := by
  refine ⟨⟨_, _, _, _, _, rfl, neverAdded_of_visited (by decide) rfl ?_, rfl, rfl, rfl, rfl,
    ⟨by decide, .refl⟩, rfl, ⟨0, ?_⟩, ⟨0, ?_⟩, ?_⟩, ⟨_, _, _, _, _, rfl,
    neverAdded_of_visited (by decide) rfl ?_, rfl, rfl, rfl, rfl, ⟨by decide, .refl⟩, rfl, ⟨0, ?_⟩,
    ⟨0, ?_⟩, ?_⟩⟩
  · decide
  · decide
  · decide
  · rintro ⟨k, hk⟩
    change (⟨0, k, .noConvergence⟩ : Skipped) ∈ [⟨5, 1, .noConvergence⟩] at hk
    simp at hk
  · decide
  · decide
  · decide
  · rintro ⟨k, -, -, hend⟩
    exact List.not_mem_nil hend

end FlowRecovery

import FlowRecovery.Proofs.Reduce.Markers
import FlowRecovery.Proofs.Reduce.Paths
import FlowRecovery.Proofs.Reduce.Search

/-! Blocks end where the arms of their branches meet, in the graph that is left. The scan decides where
arms meet while jumps are being bypassed, earlier branches having moved edges and later ones still to
move more. But a bypassed jump has one edge, so bypassing neither makes nor breaks a path that avoids a
branch: every state of the scan, the last one included, has the avoiding paths of the graph that the
scan began with, up to where vertices are led. -/

namespace FlowRecovery

open Relation FlowRecovery.Graph

variable {t : Table} {g g₀ g' : Graph} {v x y : Int}

namespace Graph

/-- The lowest and the highest of the edges that leave `v`. -/
structure Fork (g : Graph) (v : Int) (lo hi : Edge) : Prop where
  lower : lo ∈ g.outs v
  upper : hi ∈ g.outs v
  least : ∀ e ∈ g.outs v, e ≠ lo → lo.attrs.level < e.attrs.level
  greatest : ∀ e ∈ g.outs v, e ≠ hi → e.attrs.level < hi.attrs.level
  ne : lo ≠ hi

/-- The lowest and the highest edge of `v` both lead to `y` without passing `v` again. -/
def Meets (g : Graph) (v y : Int) : Prop :=
  ∃ lo hi, g.Fork v lo hi ∧ g.Avoiding v lo.target y ∧ g.Avoiding v hi.target y

/-- Levels tell the lowest and the highest edge, so these are led where their targets are. -/
theorem Fork.targets {f : Int → Int} {lo hi lo' hi' : Edge} (h : g.Fork v lo hi)
    (h' : g'.Fork v lo' hi')
    (houts : ((g'.outs v).map fun e => (e.attrs.flow, e.target)).Perm
      ((g.outs v).map fun e => (e.attrs.flow, f e.target))) :
    lo'.target = f lo.target ∧ hi'.target = f hi.target := by
  have hnew : ∀ e ∈ g.outs v, ∃ e' ∈ g'.outs v,
      e'.attrs.level = e.attrs.level ∧ e'.target = f e.target := by
    intro e he
    obtain ⟨e', he', heq⟩ := List.mem_map.mp (houts.symm.subset (List.mem_map_of_mem he))
    simp only [Attrs.flow, Prod.mk.injEq] at heq
    exact ⟨e', he', heq.1.1, heq.2⟩
  have hold : ∀ e' ∈ g'.outs v, ∃ e ∈ g.outs v, e.attrs.level = e'.attrs.level := by
    intro e' he'
    obtain ⟨e, he, heq⟩ := List.mem_map.mp (houts.subset (List.mem_map_of_mem he'))
    simp only [Attrs.flow, Prod.mk.injEq] at heq
    exact ⟨e, he, heq.1.1⟩
  refine ⟨?_, ?_⟩
  · obtain ⟨e', he', hlevel, htarget⟩ := hnew lo h.lower
    obtain ⟨e, he, hlevel'⟩ := hold lo' h'.lower
    by_cases heq : e' = lo'
    · exact heq ▸ htarget
    · exfalso
      have hless := h'.least e' he' heq
      rw [hlevel, ← hlevel'] at hless
      by_cases hlo : e = lo
      · exact Int64.lt_irrefl (hlo ▸ hless)
      · exact Int64.lt_irrefl (Int64.lt_trans hless (h.least e he hlo))
  · obtain ⟨e', he', hlevel, htarget⟩ := hnew hi h.upper
    obtain ⟨e, he, hlevel'⟩ := hold hi' h'.upper
    by_cases heq : e' = hi'
    · exact heq ▸ htarget
    · exfalso
      have hless := h'.greatest e' he' heq
      rw [hlevel, ← hlevel'] at hless
      by_cases hhi : e = hi
      · exact Int64.lt_irrefl (hhi ▸ hless)
      · exact Int64.lt_irrefl (Int64.lt_trans hless (h.greatest e he hhi))

end Graph

namespace Structuring

variable {ms ms' : List (Int × Int)} {s s' s₁ : Structuring} {a : Arms} {u : Vertex}

theorem between_of_arms (h : arms g u = .ok a) : ∀ e ∈ g.outs u.id, Between a e := by
  obtain ⟨first, second, rest, houts, rfl, -⟩ := arms_eq_ok h
  rw [houts]
  exact between_extremes first (second :: rest)

theorem fork_of_arms (hlevels : (g.levels u.id).Nodup) (h : arms g u = .ok a) :
    g.Fork u.id a.elseArm a.ifArm := by
  obtain ⟨helse, hif⟩ := mem_outs_of_arms h
  have hbetween := between_of_arms h
  have hinj : ∀ e ∈ g.outs u.id, ∀ f ∈ g.outs u.id, e.attrs.level = f.attrs.level → e = f :=
    fun e he f hf heq => List.inj_on_of_nodup_map hlevels he hf heq
  refine ⟨helse, hif, ?_, ?_, ?_⟩
  · intro e he hne
    exact Int64.lt_of_le_of_ne (hbetween e he).1 fun heq => hne (hinj e he _ helse heq.symm)
  · intro e he hne
    exact Int64.lt_of_le_of_ne (hbetween e he).2 fun heq => hne (hinj e he _ hif heq)
  · intro heq
    exact levels_ne_of_arms h (by rw [heq])

theorem two_le_of_arms (h : arms g u = .ok a) : 2 ≤ g.outDegree u.id := by
  obtain ⟨first, second, rest, houts, -⟩ := arms_eq_ok h
  simp [outDegree, houts]

/-! ### Paths that avoid a branch -/

namespace Bypassed

section Avoiding

variable (h : Bypassed t g₀ ms s) (hv : g₀.isBranch t v = true)

include h hv

/-- Nothing else is led to a branch, and a branch is led nowhere. -/
theorem lead_eq_branch_iff : lead ms x = v ↔ x = v := by
  have hfixed : lead ms v = v := by
    refine lead_of_not_mem ?_
    intro hmem
    obtain ⟨m, hm, rfl⟩ := List.mem_map.mp hmem
    exact not_isJump_of_isBranch hv (h.jumps m hm)
  constructor
  · intro hx
    rcases lead_eq_or_mem (x := x) ms with heq | hmem
    · exact heq.symm.trans hx
    · obtain ⟨m, hm, heq⟩ := List.mem_map.mp hmem
      exact absurd (hx ▸ heq ▸ h.labels m hm) (not_isLabel_of_isBranch hv)
  · rintro rfl
    exact hfixed

/-- On the way to where it is led a vertex passes jumps only. -/
theorem avoiding_lead_self (hx : x ≠ v) : g₀.Avoiding v x (lead ms x) := by
  have hpath : ∀ y, ReflTransGen (g₀.Follows (· ∈ ms.map Prod.fst) (lead ms)) x y →
      g₀.Avoiding v x y ∧ lead ms y = lead ms x := by
    intro y hy
    induction hy with
    | refl => exact ⟨.refl hx, rfl⟩
    | tail _ hstep ih =>
      have hlead := hstep.2.trans ih.2
      refine ⟨ih.1.tail hstep.1.2 ?_, hlead⟩
      rw [Ne, ← h.lead_eq_branch_iff hv, hlead, h.lead_eq_branch_iff hv]
      exact hx
  exact (hpath _ (h.path x)).1

/-- Paths of the scan's graph are paths of the first. -/
theorem avoiding_of_lead (hpath : s.graph.Avoiding v (lead ms x) y) : g₀.Avoiding v x y := by
  have hx : x ≠ v := fun heq => hpath.1 ((h.lead_eq_branch_iff hv).mpr heq)
  refine hpath.induction (h.avoiding_lead_self hv hx) ?_
  rintro b c hb - ⟨e, he, rfl, rfl⟩ hne
  obtain ⟨e₀, he₀, hsource, -, htarget⟩ := h.moved.mem_of_mem he
  have hne₀ : e₀.target ≠ v := fun heq =>
    hne (htarget ▸ (h.lead_eq_branch_iff hv).mpr heq)
  have hstep := hb.tail ⟨e₀, he₀, hsource, rfl⟩ hne₀
  rw [← htarget]
  exact hstep.trans (h.avoiding_lead_self hv hne₀)

/-- Paths of the first graph are led to paths of the scan's graph, if jumps have one edge each. -/
theorem avoiding_lead (hfew : ∀ j, g₀.IsJump t j → (g₀.outs j).length ≤ 1)
    (hpath : g₀.Avoiding v x y) : s.graph.Avoiding v (lead ms x) (lead ms y) := by
  have hlead : ∀ z, z ≠ v → lead ms z ≠ v := fun z hz heq =>
    hz ((h.lead_eq_branch_iff hv).mp heq)
  refine hpath.induction (P := fun y => s.graph.Avoiding v (lead ms x) (lead ms y))
    (.refl (hlead x hpath.1)) ?_
  rintro b c hb - ⟨e, he, rfl, rfl⟩ hne
  by_cases hmoved : e.source ∈ ms.map Prod.fst
  · -- a bypassed jump is led where its one edge leads
    obtain ⟨m, hm, hsource⟩ := List.mem_map.mp hmoved
    obtain ⟨o, ho, hland⟩ := h.along m hm
    have hout : e ∈ g₀.outs m.1 := mem_outs.mpr ⟨he, hsource.symm⟩
    obtain ⟨only, honly⟩ := List.length_eq_one_iff.mp
      (Nat.le_antisymm (hfew m.1 (h.jumps m hm)) (List.length_pos_of_mem ho))
    rw [honly, List.mem_singleton] at ho hout
    rw [hout, ← ho, hland, hsource]
    exact hb
  · obtain ⟨e', he', hsource, -, htarget⟩ := h.moved.exists_mem he
    rw [lead_of_not_mem hmoved] at hb
    exact hb.tail ⟨e', he', hsource, htarget⟩ (hlead _ hne)

end Avoiding

/-- Nothing leads to a bypassed jump, so its deletion breaks no path. -/
theorem avoiding_delete (h : Bypassed t g₀ ms s) (hx : x ∉ s.gone) :
    (s.graph.deleteVertices s.gone).1.Avoiding v x y ↔ s.graph.Avoiding v x y := by
  constructor
  · intro hpath
    refine hpath.induction (.refl hpath.1) ?_
    rintro b c hb - ⟨e, he, rfl, rfl⟩ hne
    exact hb.tail ⟨e, (List.mem_filter.mp he).1, rfl, rfl⟩ hne
  · intro hpath
    have hboth : (s.graph.deleteVertices s.gone).1.Avoiding v x y ∧ y ∉ s.gone := by
      refine hpath.induction (P := fun y =>
        (s.graph.deleteVertices s.gone).1.Avoiding v x y ∧ y ∉ s.gone) ⟨.refl hpath.1, hx⟩ ?_
      rintro b c ⟨hb, hgone⟩ - ⟨e, he, rfl, rfl⟩ hne
      obtain ⟨e₀, -, -, -, htarget⟩ := h.moved.mem_of_mem he
      have hleft : e.target ∉ s.gone := by
        rw [h.gone, ← htarget]
        exact h.settled e₀.target
      have hkept : e ∈ (s.graph.deleteVertices s.gone).1.edges :=
        List.mem_filter.mpr ⟨he, by simp [hgone, hleft]⟩
      exact ⟨hb.tail ⟨e, hkept, rfl, rfl⟩ hne, hleft⟩
    exact hboth.1

section Carry

variable (h : Bypassed t g₀ ms s) (h' : Bypassed t g₀ ms' s') (hv : g₀.isBranch t v = true)
  (hfew : ∀ j, g₀.IsJump t j → (g₀.outs j).length ≤ 1)

include h h' hv hfew

/-- Two states of the scan have the same paths, up to where vertices are led. -/
theorem avoiding_carry (hpath : s.graph.Avoiding v (lead ms x) y) :
    s'.graph.Avoiding v (lead ms' x) (lead ms' y) :=
  h'.avoiding_lead hv hfew (h.avoiding_of_lead hv hpath)

/-- Where arms met, they meet in the graph that is left. -/
theorem avoiding_left (hpath : s.graph.Avoiding v (lead ms x) y) :
    (s'.graph.deleteVertices s'.gone).1.Avoiding v (lead ms' x) (lead ms' y) := by
  refine (h'.avoiding_delete ?_).mpr (h.avoiding_carry h' hv hfew hpath)
  rw [h'.gone]
  exact h'.settled x

/-- Where arms meet in the graph that is left, they met. -/
theorem avoiding_of_left
    (hpath : (s'.graph.deleteVertices s'.gone).1.Avoiding v (lead ms' x) y) :
    s.graph.Avoiding v (lead ms x) (lead ms y) := by
  refine h'.avoiding_carry h hv hfew ((h'.avoiding_delete ?_).mp hpath)
  rw [h'.gone]
  exact h'.settled x

end Carry

end Bypassed

/-! ### Verdicts -/

/-- Two edges at different levels make a fork. -/
theorem exists_fork (hlevels : (g.levels v).Nodup) (h : 2 ≤ g.outDegree v) :
    ∃ lo hi, g.Fork v lo hi := by
  obtain ⟨a, ha⟩ := exists_arms (v := ⟨v, default⟩) hlevels h
  exact ⟨_, _, fork_of_arms hlevels ha⟩

theorem Bypassed.lead_label (h : Bypassed t g₀ ms s) (hx : g₀.isLabel x = true) : lead ms x = x := by
  refine lead_of_not_mem ?_
  intro hmem
  obtain ⟨m, hm, rfl⟩ := List.mem_map.mp hmem
  exact (h.jumps m hm).not_isLabel hx

end Structuring

/-- The verdict is right for the graph that is left: the branch has a lowest and a highest edge, and
these meet where its block ends, or nowhere if they are said not to. -/
def Judged.Holds (g : Graph) (j : Judged) : Prop :=
  (∃ lo hi, g.Fork j.vertex lo hi) ∧
    (∀ y, j.verdict = .ends y → g.Meets j.vertex y) ∧
    (j.verdict = .skipped .noConvergence → ∀ y, ¬ g.Meets j.vertex y)

namespace Structuring

variable {verdict : Verdict} {log : List Judged} {vs : List Int}

/-- A verdict that the scan gives is right for the graph that the scan leaves. -/
theorem Settles.holds (hsettles : Settles t s u a verdict s₁) (harms : arms s.graph u = .ok a)
    (h : Bypassed t g₀ ms s) (h' : Bypassed t g₀ ms' s') (hg : g₀.WellFormed)
    (hv : g₀.isBranch t u.id = true) (hlevels : (g₀.levels u.id).Nodup)
    (hfew : ∀ j, g₀.IsJump t j → (g₀.outs j).length ≤ 1) :
    Judged.Holds (s'.graph.deleteVertices s'.gone).1 ⟨u.id, verdict⟩ := by
  have hlive : u.id ∈ (s'.graph.deleteVertices s'.gone).1.live := by
    refine mem_live_of_isBranch (t := t) ?_
    rw [h'.isBranch_delete, hv]
  have hdegree := two_le_of_arms harms
  rw [h.outDegree_eq] at hdegree
  obtain ⟨lo, hi, hfork⟩ := exists_fork hlevels hdegree
  -- the arms that the scan saw are the lowest and the highest edge, led elsewhere
  obtain ⟨helse, hif⟩ := hfork.targets
    (fork_of_arms ((h.levels_perm u.id).nodup_iff.mpr hlevels) harms) (h.moved.outs u.id)
  have houts := (h'.contraction hg).outs u.id hlive
  have hleft : ∃ lo hi, (s'.graph.deleteVertices s'.gone).1.Fork u.id lo hi := by
    refine exists_fork ((Graph.levels_perm houts).nodup_iff.mpr hlevels) ?_
    rwa [← length_levels, (Graph.levels_perm houts).length_eq, length_levels]
  have hopened := h.opened u a
  have harm : ∀ e ∈ s.graph.outs u.id, e.target ∈ (s.marked u a).live := by
    intro e he
    have htarget := h.wellFormed.target_live e (mem_outs.mp he).1
    rwa [h.same.live, ← hopened.same.live] at htarget
  obtain ⟨hlower, hupper⟩ := mem_outs_of_arms harms
  refine ⟨hleft, ?_, ?_⟩
  · rintro y rfl
    cases hsettles with
    | closed hmerge hlabel =>
      obtain ⟨lo', hi', hfork'⟩ := hleft
      obtain ⟨hlo, hhi⟩ := hfork.targets hfork' houts
      obtain ⟨hfirst, hsecond⟩ := avoiding_of_converge hopened.wellFormed.target_live
        (harm _ hlower) (harm _ hupper) hmerge
      have hmerged := h'.lead_label ((hopened.same.isLabel _).symm.trans hlabel)
      rw [helse] at hfirst
      rw [hif] at hsecond
      have hfirst' := hopened.avoiding_left h' hv hfew hfirst
      have hsecond' := hopened.avoiding_left h' hv hfew hsecond
      rw [hmerged, ← hlo] at hfirst'
      rw [hmerged, ← hhi] at hsecond'
      exact ⟨lo', hi', hfork', hfirst', hsecond'⟩
  · rintro rfl y ⟨lo', hi', hfork', hfirst, hsecond⟩
    cases hsettles with
    | unmet hmerge =>
      obtain ⟨hlo, hhi⟩ := hfork.targets hfork' houts
      rw [hlo] at hfirst
      rw [hhi] at hsecond
      have hfirst' := hopened.avoiding_of_left h' hv hfew hfirst
      have hsecond' := hopened.avoiding_of_left h' hv hfew hsecond
      rw [← helse] at hfirst'
      rw [← hif] at hsecond'
      exact (converge_eq_none_iff hopened.wellFormed.target_live (harm _ hlower)
        (harm _ hupper)).mp hmerge _ ⟨hfirst', hsecond'⟩

end Structuring

namespace Graph

/-- All verdicts of a run are right for the graph that it leaves. -/
theorem exists_noted_holds (hg : g.WellFormed) (hfault : (g.structureBranches t).fault = none)
    (hlevels : ∀ x, (g.levels x).Nodup) (hfew : ∀ j, g.IsJump t j → (g.outs j).length ≤ 1) :
    ∃ log, Structuring.Noted g log (g.structureBranches t) ∧
      (∀ x, (g.structureBranches t).graph.isLabel x = g.isLabel x) ∧
      ∀ j ∈ log, j.Holds (g.structureBranches t).graph := by
  obtain ⟨log, s, hscan, heq⟩ := exists_scans hfault
  obtain ⟨ms', hs'⟩ := hscan.bypassed (.start hg)
  rw [heq]
  refine ⟨log, hscan.noted hg, hs'.isLabel_delete, ?_⟩
  intro j hj
  obtain ⟨ms, s, op, a, s₁, hs, -, harms, hsettles⟩ := hscan.exists_settles (.start hg) hj
  have hbranch : g.isBranch t j.vertex = true := by
    rw [← mem_branches, branches, ← hscan.vertices (.start hg)]
    exact List.mem_map_of_mem hj
  exact hsettles.holds harms hs hs' hg hbranch (hlevels _) hfew

/-! ### Built graphs -/

end Graph

/-- Every block ends where the lowest and the highest edge of its branch meet, and the edges of a branch
that was skipped for want of a merge meet nowhere. -/
structure Reduction.BlocksEndAtMerges (red : Reduction) : Prop where
  ended : ∀ k < red.stats.branches.found, (∀ b ∈ red.stats.branches.skipped, b.id ≠ k) →
    (∃ v x, .ifStart k ∈ red.graph.markers v ∧ .ifEnd k ∈ red.graph.markers x) ∧
      ∀ v x, .ifStart k ∈ red.graph.markers v → .ifEnd k ∈ red.graph.markers x →
        red.graph.isLabel x = true ∧ red.graph.Meets v x
  unmet : ∀ b ∈ red.stats.branches.skipped, b.reason = .noConvergence →
    (∃ lo hi, red.graph.Fork b.vertex lo hi) ∧ ∀ y, ¬ red.graph.Meets b.vertex y

namespace Graph

variable {r : Routine} {stats : BuildStats} {p : Passes}

/-- Without trailing code every edge has its level from the walk. -/
theorem nodup_levels_of_build_of_tail (h : r.build t = .ok (g, stats)) (htail : stats.tailEdges = 0)
    (x : Int) : (g.levels x).Nodup := by
  rcases Routine.build_eq_ok h with ⟨hops, rfl, rfl⟩ | ⟨labels, w, hb⟩
  · exact List.nodup_nil
  · rw [levels, outs, hb.edges_eq_walk htail]
    exact hb.finished.nodup_levels x

/-- Where jumps end the flow and there is no trailing code, the verdicts of the scan are right for the
graph that both passes leave. -/
theorem minimize_ends_blocks_at_merges (ht : t.JumpsEnd) (h : r.build t = .ok (g, stats))
    (htail : stats.tailEdges = 0) (hfault : (g.minimize t p).fault = none) :
    (g.minimize t p).BlocksEndAtMerges := by
  obtain ⟨land, hfirst⟩ := exists_firstPass h p
  have hlevels : ∀ x, ((g.collapsed t p).levels x).Nodup :=
    fun x => hfirst.nodup_levels (nodup_levels_of_build_of_tail h htail x)
  have hfew : ∀ j, (g.collapsed t p).IsJump t j → ((g.collapsed t p).outs j).length ≤ 1 :=
    fun j hj => (hfirst.leavesForLabel (fun _ => leavesForLabel_of_build ht h htail) hj).few
  have hstats := stats_minimize (g := g) (t := t) p
  have hgraph := graph_minimize (g := g) (t := t) p
  rw [fault_minimize] at hfault
  split_ifs at hfault hstats hgraph
  · refine ⟨?_, ?_⟩
    · intro k hk
      rw [hstats] at hk
      exact absurd hk (Nat.not_lt_zero k)
    · intro b hb
      rw [hstats] at hb
      exact absurd hb List.not_mem_nil
  · obtain ⟨log, hnoted, hlabel, hholds⟩ :=
      exists_noted_holds hfirst.wellFormed hfault hlevels hfew
    refine ⟨?_, ?_⟩
    · intro k hk hskipped
      rw [hstats] at hk hskipped
      rw [hgraph]
      obtain ⟨v, x, hj⟩ := hnoted.exists_ends hk hskipped
      refine ⟨⟨v, x, hnoted.ifStart_mem_markers.mpr ⟨_, hj, rfl⟩,
        hnoted.ifEnd_mem_markers.mpr ⟨_, hj, rfl⟩⟩, ?_⟩
      intro v' x' hstart hend
      obtain ⟨j, hj', rfl⟩ := hnoted.ifStart_mem_markers.mp hstart
      obtain ⟨j', hj'', hverdict⟩ := hnoted.ifEnd_mem_markers.mp hend
      obtain rfl := Option.some.inj (hj'.symm.trans hj'')
      have hmem := List.mem_of_getElem? hj'
      exact ⟨(hlabel x').trans (hnoted.labels j hmem x' hverdict), (hholds j hmem).2.1 x' hverdict⟩
    · intro b hb hreason
      rw [hstats, hnoted.skipped, Judged.mem_skips, hreason] at hb
      rw [hgraph]
      have hheld := hholds _ (List.mem_of_getElem? hb)
      exact ⟨hheld.1, hheld.2.2 rfl⟩

/-- A branch in the lower arm of another: the outer arms meet behind a jump, and of the inner ones one
returns. -/
def innerReturn : Routine :=
  { id := 1
    ops :=
      [.labelJump { code := { name := "BranchValue" } } ⟨1, 1⟩,
        .labelJump { code := { name := "BranchValue" } } ⟨1, 3⟩,
        .plain { code := { name := "Return" } }, .label 3,
        .plain { code := { name := "Message" } },
        .labelJump { code := { name := "Jump" } } ⟨1, 2⟩, .label 1,
        .plain { code := { name := "Message" } }, .label 2,
        .plain { code := { name := "Return" } }] }

theorem innerReturn_ends_blocks_at_merges :
    ∃ g stats, innerReturn.build .default = .ok (g, stats) ∧ stats.tailEdges = 0 ∧
      (g.minimize .default {}).fault = none ∧
      (g.minimize .default {}).graph.live = [0, 1, 2, 3, 4, 6, 7, 8, 9] ∧
      (g.minimize .default {}).graph.markers 8 = [.ifEnd 0] ∧
      (g.minimize .default {}).stats.branches.skipped = [⟨1, 1, .noConvergence⟩] ∧
      (g.minimize .default {}).BlocksEndAtMerges :=
  ⟨_, _, rfl, rfl, rfl, rfl, rfl, rfl,
    minimize_ends_blocks_at_merges (r := innerReturn) jumpsEnd_default rfl rfl rfl⟩

end Graph

end FlowRecovery

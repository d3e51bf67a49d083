import FlowRecovery.Proofs.Reduce.Meeting
import FlowRecovery.Proofs.Reduce.Shape

/-! Lower arms. Structuring notes the lowest edge of each branch, once, when it meets the branch. The note
goes with the edge: an edge that is led elsewhere is drawn anew with all that it says, and no pass changes
the level of an edge. So in the graph that is left the noted edges are the lowest edges of branches, one
for each branch, whether its block was ended or not. -/

namespace FlowRecovery

open FlowRecovery.Graph

variable {t : Table} {g g₀ g' : Graph} {r : Routine} {stats : BuildStats}

/-- An edge that has been drawn says what it was drawn with. -/
theorem Graph.mem_edges_link {source target : Int} {a : Attrs} {e : Edge}
    (he : e ∈ (g.link source target a).edges) : e ∈ g.edges ∨ e.source = source ∧ e.attrs = a := by
  by_cases hends : source ∈ g.live ∧ target ∈ g.live
  · rw [edges_link hends.1 hends.2, List.mem_append, List.mem_singleton] at he
    refine he.imp_right ?_
    rintro rfl
    exact ⟨rfl, rfl⟩
  · rw [link_of_not_live hends] at he
    exact Or.inl he

/-! ### Built graphs -/

/-- No edge is noted as a lower arm. -/
def Graph.Unnoted (g : Graph) : Prop := ∀ e ∈ g.edges, e.attrs.isElse = false

theorem Graph.Unnoted.link {source target : Int} {a : Attrs} (h : g.Unnoted) (ha : a.isElse = false) :
    (g.link source target a).Unnoted := by
  intro e he
  rcases mem_edges_link he with he | ⟨-, hattrs⟩
  · exact h e he
  · rw [hattrs, ha]

theorem Walk.unnoted_next {labels : LabelIndex} {w w' : Walk} (hw : w.graph.Unnoted)
    (h : Walk.Next r labels t w w') : w'.graph.Unnoted := by
  cases h with
  | rest => exact hw
  | leave => exact hw
  | draw => exact hw.link rfl
  | enter => exact hw.link rfl

theorem Tail.unnoted_round {labels : LabelIndex} {pos : Int} {s s' : Tail} (hs : s.graph.Unnoted)
    (h : Tail.Joined r labels t pos s s') : s'.graph.Unnoted := by
  cases h with
  | behind => exact hs.link rfl
  | beside => exact (hs.link rfl).link rfl

namespace Graph

theorem unnoted_of_build (h : r.build t = .ok (g, stats)) : g.Unnoted := by
  rcases Routine.build_eq_ok h with ⟨-, rfl, -⟩ | ⟨labels, w, hb⟩
  · intro e he
    exact absurd he List.not_mem_nil
  · have hwalk : w.graph.Unnoted :=
      Walk.ofRoutine_induction (P := fun w => w.graph.Unnoted)
        (fun _ _ e he => absurd he List.not_mem_nil) (fun _ _ => Walk.unnoted_next) hb.walk_eq
    rw [hb.graph_eq]
    exact Tail.back_induction (P := fun s => s.graph.Unnoted)
      (fun _ _ _ hs _ _ hj => Tail.unnoted_round hs hj) _ hwalk hb.noFault

/-- Collapsing chains leads edges elsewhere and changes nothing of what they say. -/
theorem unnoted_collapsed (h : r.build t = .ok (g, stats)) (p : Passes) :
    (g.collapsed t p).Unnoted := by
  have hnone := unnoted_of_build h
  obtain ⟨hg, hfalls⟩ := wellFormed_of_build h
  unfold collapsed
  split_ifs
  · exact hnone
  · obtain ⟨done, gm, hdone, heq⟩ := exists_collapsing hg hfalls (t := t)
    rw [heq]
    intro e he
    obtain ⟨e₀, he₀, -, hattrs, -⟩ := hdone.moved.mem_of_mem (List.mem_of_mem_filter he)
    rw [← id_eq e.attrs, ← hattrs]
    exact hnone e₀ he₀

theorem outDegree_collapsed_le (h : r.build t = .ok (g, stats)) (p : Passes) (v : Int) :
    (g.collapsed t p).outDegree v ≤ 2 := by
  obtain ⟨land, hfirst⟩ := exists_firstPass h p
  by_cases hv : v ∈ (g.collapsed t p).live
  · rw [hfirst.outDegree_eq hv]
    rcases Routine.build_eq_ok h with ⟨-, rfl, -⟩ | ⟨labels, w, hb⟩
    · exact Nat.zero_le 2
    · exact hb.outDegree_le v
  · rw [outDegree, hfirst.wellFormed.outs_eq_nil hv]
    exact Nat.zero_le 2

/-! ### Noting the lowest edges -/

/-- The edges noted are those of the vertices `done` that are as low as the levels of `g₀` go. -/
def LowestNoted (g₀ : Graph) (done : List Int) (g : Graph) : Prop :=
  ∀ e ∈ g.edges, e.attrs.isElse = true ↔
    e.source ∈ done ∧ ∀ level ∈ g₀.levels e.source, e.attrs.level ≤ level

variable {done : List Int}

/-- Notes go with the edges. -/
theorem LowestNoted.of_edges (h : LowestNoted g₀ done g)
    (hedges : ∀ e ∈ g'.edges, ∃ e₀ ∈ g.edges, e₀.source = e.source ∧ e₀.attrs = e.attrs) :
    LowestNoted g₀ done g' := by
  intro e he
  obtain ⟨e₀, he₀, hsource, hattrs⟩ := hedges e he
  rw [← hsource, ← hattrs]
  exact h e₀ he₀

theorem LowestNoted.start (h : g.Unnoted) : LowestNoted g₀ [] g := by
  intro e he
  simp [h e he]

end Graph

namespace Structuring

variable {s s₁ s' : Structuring} {u : Vertex} {a : Arms} {done vs : List Int} {ms : List (Int × Int)}
  {verdict : Verdict} {log : List Judged}

/-- Of two edges that can be told apart, the levels differ. -/
theorem nodup_levels_of_arms (hfew : g.outDegree u.id ≤ 2) (h : arms g u = .ok a) :
    (g.levels u.id).Nodup := by
  obtain ⟨first, second, rest, houts, ha, hlevel⟩ := arms_eq_ok h
  have hrest : rest = [] := by
    rw [outDegree, houts, List.length_cons, List.length_cons] at hfew
    exact List.length_eq_zero_iff.mp (by omega)
  rw [levels, houts, hrest]
  rw [hrest] at ha
  simp only [List.map_cons, List.map_nil, List.nodup_cons, List.mem_singleton, List.not_mem_nil,
    not_false_eq_true, List.nodup_nil, and_true]
  intro heq
  apply hlevel
  simp [ha, extremes, heq]

theorem mem_edges_reroute {pred dest : Int} {e : Edge} (he : e ∈ (reroute g pred dest).edges) :
    ∃ e₀ ∈ g.edges, e₀.source = e.source ∧ e₀.attrs = e.attrs := by
  unfold reroute at he
  refine List.foldlRecOn (g.ins pred) _ (motive := fun g' : Graph => ∀ e ∈ g'.edges,
    ∃ e₀ ∈ g.edges, e₀.source = e.source ∧ e₀.attrs = e.attrs)
    (fun e he => ⟨e, he, rfl, rfl⟩) ?_ e he
  intro g' hg' x hx e he
  rcases mem_edges_link (List.mem_of_mem_filter he) with he | ⟨hsource, hattrs⟩
  · exact hg' e he
  · exact ⟨x, (mem_ins.mp hx).1, hsource.symm, hattrs.symm⟩

theorem lowestNoted_bypass (h : LowestNoted g₀ done s.graph) (dest : Int) (arrival : Edge) :
    LowestNoted g₀ done (bypass t dest s arrival).graph := by
  unfold bypass
  simp only
  split_ifs
  · exact h.of_edges fun e he => mem_edges_reroute he
  · exact h

/-- Noting the lower arm of the branch `u`. -/
theorem lowestNoted_marked (h : LowestNoted g₀ done s.graph) (hs : Bypassed t g₀ ms s)
    (harms : arms s.graph u = .ok a) (hlevels : (g₀.levels u.id).Nodup) :
    LowestNoted g₀ (done ++ [u.id]) (s.marked u a) := by
  have hperm := hs.levels_perm u.id
  have hfork := fork_of_arms (hperm.nodup_iff.mpr hlevels) harms
  obtain ⟨helse, hsource⟩ := mem_outs.mp hfork.lower
  have hedges : (s.marked u a).edges = (s.graph.setElse a.elseArm.id).edges := edges_updateOp _ _ _
  intro e he
  rw [hedges] at he
  obtain ⟨f, hf, rfl⟩ := List.mem_map.mp he
  -- the edge that has just been noted, and all others
  by_cases hid : f.id = a.elseArm.id
  · obtain rfl := hs.wellFormed.eq_of_id_eq hf helse hid
    have hleast : ∀ level ∈ g₀.levels u.id, a.elseArm.attrs.level ≤ level := by
      intro level hmem
      obtain ⟨x, hx, rfl⟩ := List.mem_map.mp (hperm.symm.subset hmem)
      exact (between_of_arms harms x hx).1
    rw [if_pos rfl]
    refine ⟨fun _ => ⟨?_, ?_⟩, fun _ => rfl⟩
    · rw [hsource]
      exact List.mem_append_right _ (List.mem_singleton_self _)
    · rw [hsource]
      exact hleast
  · rw [if_neg hid, h f hf, List.mem_append, List.mem_singleton]
    have hlower : f.source = u.id → ¬ ∀ level ∈ g₀.levels f.source, f.attrs.level ≤ level := by
      intro hu hleast
      have hfu : f ∈ s.graph.outs u.id := mem_outs.mpr ⟨hf, hu⟩
      have hless := hfork.least f hfu fun heq => hid (congrArg Edge.id heq)
      have hmem : a.elseArm.attrs.level ∈ g₀.levels f.source :=
        hu ▸ hperm.subset (List.mem_map_of_mem hfork.lower)
      exact Int64.lt_irrefl (Int64.lt_of_lt_of_le hless (hleast _ hmem))
    constructor
    · exact fun hdone => ⟨Or.inl hdone.1, hdone.2⟩
    · rintro ⟨hdone | hu, hleast⟩
      · exact ⟨hdone, hleast⟩
      · exact absurd hleast (hlower hu)

theorem lowestNoted_settles (h : LowestNoted g₀ done s.graph) (hs : Bypassed t g₀ ms s)
    (harms : arms s.graph u = .ok a) (hlevels : (g₀.levels u.id).Nodup)
    (hsettles : Settles t s u a verdict s₁) : LowestNoted g₀ (done ++ [u.id]) s₁.graph := by
  have hmarked := lowestNoted_marked h hs harms hlevels
  cases hsettles with
  | unmet => exact hmarked
  | unlabelled => exact hmarked
  | @closed m hmerge hlabel =>
    unfold close
    simp only [List.foldl_cons, List.foldl_nil]
    refine lowestNoted_bypass (lowestNoted_bypass (hmarked.of_edges ?_) _ _) _ _
    intro e he
    exact ⟨e, by simpa [addMarker, opened] using he, rfl, rfl⟩

/-- The scan notes the lowest edge of every branch. -/
theorem lowestNoted_scans (hscan : Scans t vs s log s') (h : LowestNoted g₀ done s.graph)
    (hs : Bypassed t g₀ ms s) (hfew : ∀ v, g₀.outDegree v ≤ 2) :
    LowestNoted g₀ (done ++ log.map Judged.vertex) s'.graph := by
  induction hscan generalizing done ms with
  | nil s => simpa using h
  | pass _ _ ih => exact ih h hs
  | @branch x op a verdict vs s s₁ s' log hop hclass harms hsettles rest ih =>
    have hdegree : s.graph.outDegree x ≤ 2 := by
      rw [hs.outDegree_eq]
      exact hfew x
    have hlevels := (hs.levels_perm x).nodup_iff.mp (nodup_levels_of_arms hdegree harms)
    obtain ⟨ms', hs'⟩ := hs.settles harms hsettles
    rw [List.map_cons, List.append_cons]
    exact ih (lowestNoted_settles h hs harms hlevels hsettles) hs'

/-- Every branch that the scan met has different levels and at least two edges. -/
theorem Scans.forks (hscan : Scans t vs s log s') (hs : Bypassed t g₀ ms s)
    (hfew : ∀ v, g₀.outDegree v ≤ 2) {j : Judged} (hj : j ∈ log) :
    (g₀.levels j.vertex).Nodup ∧ 2 ≤ g₀.outDegree j.vertex := by
  obtain ⟨ms', s₁, op, a, -, hs₁, -, harms, -⟩ := hscan.exists_settles hs hj
  have hdegree := hs₁.outDegree_eq j.vertex
  refine ⟨(hs₁.levels_perm j.vertex).nodup_iff.mp (nodup_levels_of_arms ?_ harms), ?_⟩
  · exact hdegree ▸ hfew j.vertex
  · exact hdegree ▸ two_le_of_arms harms

end Structuring

/-! ### The graph that is left -/

namespace Graph

/-- No other edge that leaves the same vertex is as low as `e`. -/
def IsLowest (g : Graph) (e : Edge) : Prop :=
  ∀ f ∈ g.outs e.source, f ≠ e → e.attrs.level < f.attrs.level

/-- The edges noted are the lowest edges of branches, and each branch has one. -/
structure LowerArmsNoted (t : Table) (g : Graph) : Prop where
  lowest : ∀ e ∈ g.edges, e.attrs.isElse = true ↔ g.isBranch t e.source = true ∧ g.IsLowest e
  one : ∀ v, g.isBranch t v = true → ∃ e, (g.outs v).filter (·.attrs.isElse) = [e]

/-- Where levels differ, as low as they go is lower than all others. -/
theorem isLowest_iff {e : Edge} (hlevels : (g.levels e.source).Nodup) (he : e ∈ g.edges) :
    g.IsLowest e ↔ ∀ level ∈ g.levels e.source, e.attrs.level ≤ level := by
  have hown : e ∈ g.outs e.source := mem_outs.mpr ⟨he, rfl⟩
  constructor
  · intro hless level hmem
    obtain ⟨f, hf, rfl⟩ := List.mem_map.mp hmem
    by_cases hfe : f = e
    · rw [hfe]
      exact Int64.le_refl _
    · exact Int64.le_of_lt (hless f hf hfe)
  · intro hleast f hf hne
    apply Int64.lt_of_le_of_ne (hleast _ (List.mem_map_of_mem hf))
    intro heq
    exact hne (List.inj_on_of_nodup_map hlevels hf hown heq.symm)

/-- The lower edge of a fork is the only lowest one. -/
theorem Fork.isLowest_iff_eq {v : Int} {lo hi e : Edge} (hfork : g.Fork v lo hi) (he : e ∈ g.outs v) :
    g.IsLowest e ↔ e = lo := by
  obtain rfl := (mem_outs.mp he).2
  constructor
  · intro hless
    by_contra hne
    exact Int64.lt_irrefl
      (Int64.lt_trans (hfork.least e he hne) (hless lo hfork.lower (Ne.symm hne)))
  · rintro rfl
    exact hfork.least

theorem filter_eq_singleton {v : Int} {lo hi : Edge} (hg : g.WellFormed) (hv : g.isBranch t v = true)
    (hfork : g.Fork v lo hi)
    (hlowest : ∀ e ∈ g.edges, e.attrs.isElse = true ↔ g.isBranch t e.source = true ∧ g.IsLowest e) :
    (g.outs v).filter (·.attrs.isElse) = [lo] := by
  have honly : ∀ e ∈ g.outs v, e.attrs.isElse = decide (e = lo) := by
    intro e he
    obtain ⟨hedge, hsource⟩ := mem_outs.mp he
    rw [Bool.eq_iff_iff, hlowest e hedge, hsource, hfork.isLowest_iff_eq he, decide_eq_true_iff]
    exact and_iff_right hv
  have hcount : (g.outs v).count lo = 1 :=
    List.count_eq_one_of_mem (hg.edges_nodup.filter _) hfork.lower
  rw [List.filter_congr honly, List.filter_eq, hcount, List.replicate_one]

/-- Structuring notes the lowest edge of every branch. -/
theorem lowerArmsNoted_structureBranches (hg : g.WellFormed) (hnone : g.Unnoted)
    (hfew : ∀ v, g.outDegree v ≤ 2) (hfault : (g.structureBranches t).fault = none) :
    (g.structureBranches t).graph.LowerArmsNoted t := by
  obtain ⟨log, s, hscan, heq⟩ := exists_scans hfault
  have hstart := Structuring.Bypassed.start (t := t) hg
  obtain ⟨ms, hs⟩ := hscan.bypassed hstart
  have hlog : log.map Judged.vertex = g.branches t := hscan.vertices hstart
  have hclear : g.clearAllMarkers.Unnoted := by
    unfold Unnoted clearAllMarkers
    rw [(foldl_clearMarkers g.live hg).2.1]
    exact hnone
  have hscanned := Structuring.lowestNoted_scans hscan (LowestNoted.start hclear) hstart hfew
  rw [List.nil_append, hlog] at hscanned
  have hnoted : LowestNoted g (g.branches t) (s.graph.deleteVertices s.gone).1 :=
    hscanned.of_edges fun e he => ⟨e, List.mem_of_mem_filter he, rfl, rfl⟩
  -- a branch is left with the levels that the scan told its arms apart by
  have hlevels : ∀ v, (s.graph.deleteVertices s.gone).1.isBranch t v = true →
      ((s.graph.deleteVertices s.gone).1.levels v).Perm (g.levels v) ∧
        (g.levels v).Nodup ∧ 2 ≤ g.outDegree v := by
    intro v hv
    have hperm := levels_perm ((hs.contraction hg).outs v (mem_live_of_isBranch hv))
    rw [hs.isBranch_delete, ← mem_branches, ← hlog] at hv
    obtain ⟨j, hj, rfl⟩ := List.mem_map.mp hv
    exact ⟨hperm, hscan.forks hstart hfew hj⟩
  have hlowest : ∀ e ∈ (s.graph.deleteVertices s.gone).1.edges, e.attrs.isElse = true ↔
      (s.graph.deleteVertices s.gone).1.isBranch t e.source = true ∧
        (s.graph.deleteVertices s.gone).1.IsLowest e := by
    intro e he
    rw [hnoted e he, mem_branches, ← hs.isBranch_delete]
    apply and_congr_right
    intro hbranch
    obtain ⟨hperm, hnodup, -⟩ := hlevels _ hbranch
    rw [isLowest_iff (hperm.nodup_iff.mpr hnodup) he]
    simp only [hperm.mem_iff]
  rw [heq]
  refine ⟨hlowest, ?_⟩
  intro v hv
  obtain ⟨hperm, hnodup, htwo⟩ := hlevels v hv
  rw [← length_levels, ← hperm.length_eq, length_levels] at htwo
  obtain ⟨lo, hi, hfork⟩ := Structuring.exists_fork (hperm.nodup_iff.mpr hnodup) htwo
  exact ⟨lo, filter_eq_singleton (hs.wellFormed.deleteVertices _) hv hfork hlowest⟩

/-- In the graph that structuring leaves of a built graph, chains collapsed or not, the edges noted as
lower arms are the lowest edges of branches, and every branch has exactly one. -/
theorem structureBranches_notes_lowest (h : r.build t = .ok (g, stats)) (p : Passes)
    (hfault : ((g.collapsed t p).structureBranches t).fault = none) :
    ((g.collapsed t p).structureBranches t).graph.LowerArmsNoted t := by
  obtain ⟨land, hfirst⟩ := exists_firstPass h p
  exact lowerArmsNoted_structureBranches hfirst.wellFormed (unnoted_collapsed h p)
    (outDegree_collapsed_le h p) hfault

/-- A branch with a jump as its lower arm, and one whose arms never meet. -/
def bareArm : Routine :=
  { id := 1
    ops :=
      [.labelJump { code := { name := "BranchValue" } } ⟨1, 1⟩,
        .labelJump { code := { name := "Jump" } } ⟨1, 2⟩, .label 1,
        .plain { code := { name := "Message" } }, .label 2,
        .labelJump { code := { name := "BranchValue" } } ⟨1, 3⟩,
        .plain { code := { name := "Return" } }, .label 3,
        .plain { code := { name := "Return" } }] }

theorem bareArm_notes_lowest :
    ∃ g stats, bareArm.build .default = .ok (g, stats) ∧
      ((g.collapsed .default {}).structureBranches .default).fault = none ∧
      (((g.collapsed .default {}).structureBranches .default).graph.edges.filter (·.attrs.isElse)).map
        (fun e => (e.source, e.target)) = [(5, 6), (0, 4)] ∧
      ((g.collapsed .default {}).structureBranches .default).graph.LowerArmsNoted .default :=
  ⟨_, _, rfl, rfl, rfl, structureBranches_notes_lowest (r := bareArm) rfl {} rfl⟩

end Graph

end FlowRecovery

import FlowRecovery.Proofs.Reduce.Merge

/-! One scan collapses every chain. A jump that the scan passes by stays no chain: it is entered by one
edge at most, from the same vertex all along, and that vertex, if it is a label, leads to no other jump,
so no later chain moves the edge by which the jump goes back to it. Deleting the chains keeps the edges
of every vertex that is left and draws none. So collapsing the result finds nothing. -/

namespace FlowRecovery.Graph

variable {t : Table} {g g₀ : Graph} {v w : Int} {c : Chain} {done : List Chain}

theorem chain?_of_ends {i o : Edge} (hjump : g.IsJump t v) (hins : g.ins v = [i])
    (houts : g.outs v = [o]) (hlabel : g.isLabel i.source = true) (htarget : g.isLabel o.target = true)
    (hne : o.target ≠ i.source) : g.chain? t v = some ⟨i.source, v, o.target⟩ := by
  rw [chain?, if_pos (isJump_iff.mpr hjump), hins, houts]
  simp [hlabel, htarget, hne]

/-- Edges are led to labels only, so what enters a vertex that is not a label entered it before. -/
theorem exists_mem_ins_of_reroute {old new : Int} {i : Edge} (hg : g.WellFormed)
    (hnew : g.isLabel new = true) (hw : ¬ g.isLabel w = true)
    (hi : i ∈ (Structuring.reroute g old new).ins w) : ∃ i₀ ∈ g.ins w, i₀.source = i.source := by
  obtain ⟨hedge, htarget⟩ := mem_ins.mp hi
  obtain ⟨i₀, hi₀, hsource, -, hled⟩ :=
    (moved_reroute hg old (mem_live_of_isLabel hnew)).mem_of_mem hedge
  refine ⟨i₀, mem_ins.mpr ⟨hi₀, ?_⟩, hsource⟩
  rw [htarget] at hled
  rcases lead_eq_or_mem (x := i₀.target) [(old, new)] with hsame | hmem
  · exact hsame.symm.trans hled
  · rw [hled, List.map_singleton, List.mem_singleton] at hmem
    exact absurd (hmem ▸ hnew) hw

namespace Collapsing

section Rejected

variable (h : Collapsing t g₀ done g) (henters : ∀ x, ¬ g₀.isLabel x = true → (g₀.ins x).length ≤ 1)

include h henters

/-- An edge into a jump is the only one: nothing is led to a vertex that is not a label. -/
theorem ins_eq_singleton {i : Edge} (hjump : g.IsJump t w) (hi : i ∈ g.ins w) : g.ins w = [i] := by
  have hlabel : ¬ g₀.isLabel w = true := by
    rw [← isLabel_congr h.live h.ops]
    exact hjump.not_isLabel
  have hle : (g.ins w).length ≤ (g₀.ins w).length :=
    h.moved.length_ins_le fun _ hy => h.eq_of_lead_eq hy hlabel
  have hone := Nat.le_antisymm (Nat.le_trans hle (henters w hlabel)) (List.length_pos_of_mem hi)
  obtain ⟨i', hi'⟩ := List.length_eq_one_iff.mp hone
  rw [hi', List.mem_singleton] at hi
  rw [hi', hi]

omit henters in
/-- The label of a chain leads to the jump of the chain only. -/
theorem target_of_mem_outs_label (hfalls : ∀ l, g₀.isLabel l = true → g₀.FallsOn l)
    (hc : g.chain? t v = some c) {e : Edge} (he : e ∈ g.outs c.label) : e.target = v := by
  obtain ⟨i, hi, hjump⟩ := (h.standsIn_of_chain? hfalls hc).enter
  obtain ⟨e₀, he₀, hfrom, -, hled⟩ := h.moved.mem_of_mem (mem_outs.mp he).1
  have hmem : e₀ ∈ g₀.outs c.label := mem_outs.mpr ⟨he₀, hfrom.trans (mem_outs.mp he).2⟩
  rw [hi, List.mem_singleton] at hmem
  rw [← hled, hmem, hjump, (chain?_eq_some hc).1]
  exact h.lead_of_not_isLabel (h.isJump_of_chain? hc).not_isLabel

/-- Collapsing the chain at `v` makes no chain of another jump. -/
theorem chain?_redirect (hfalls : ∀ l, g₀.isLabel l = true → g₀.FallsOn l)
    (hc : g.chain? t v = some c) (hw : g.chain? t w = none) :
    (g.redirect c.label c.target).chain? t w = none := by
  have hne : w ≠ v := by
    rintro rfl
    simp [hw] at hc
  obtain ⟨-, -, hclabel, hctarget, -⟩ := chain?_eq_some hc
  have hops := op?_congr (g := Structuring.reroute g c.label c.target) live_reroute ops_reroute
  have hlabels := isLabel_congr (g := Structuring.reroute g c.label c.target) live_reroute ops_reroute
  rw [redirect_eq_reroute h.wellFormed]
  rw [Option.eq_none_iff_forall_ne_some] at hw ⊢
  intro d hd
  obtain ⟨-, ⟨op, hop, hclass⟩, hlabel, htarget, hends, i, o, hins, houts, hisource, hotarget⟩ :=
    chain?_eq_some hd
  have hjump : g.IsJump t w := ⟨op, hops w ▸ hop, hclass⟩
  rw [hlabels] at hlabel htarget
  -- the edges into `w` and out of it were there before, the one from the same label
  obtain ⟨i₀, hi₀, hfrom⟩ := exists_mem_ins_of_reroute h.wellFormed hctarget hjump.not_isLabel
    (hins ▸ List.mem_singleton_self i)
  rw [hisource] at hfrom
  obtain ⟨o₀, ho₀, hled⟩ := (moved_reroute h.wellFormed c.label
    (mem_live_of_isLabel hctarget)).exists_outs_eq_singleton houts
  rw [hotarget] at hled
  refine hw _ (chain?_of_ends hjump (h.ins_eq_singleton henters hjump hi₀) ho₀ (hfrom ▸ hlabel) ?_ ?_)
  · by_cases hmoved : o₀.target = c.label
    · rw [hmoved]
      exact hclabel
    · rw [lead_of_not_mem (by simpa using hmoved)] at hled
      exact hled ▸ htarget
  · intro hback
    by_cases hmoved : i₀.source = c.label
    · refine hne ((mem_ins.mp hi₀).2.symm.trans ?_)
      exact h.target_of_mem_outs_label hfalls hc (mem_outs.mpr ⟨(mem_ins.mp hi₀).1, hmoved⟩)
    · rw [hback, lead_of_not_mem (by simpa using hmoved), hfrom] at hled
      exact hends hled.symm

/-- Nor does deleting the chains. -/
theorem chain?_deleteVertices (hw : g.chain? t w = none) (hleft : w ∉ doomed done) :
    (g.deleteVertices (doomed done)).1.chain? t w = none := by
  have hkept : (g.deleteVertices (doomed done)).1.outs w = g.outs w := by
    apply outs_deleteVertices hleft
    intro e he
    obtain ⟨hedge, rfl⟩ := mem_outs.mp he
    obtain ⟨e₀, he₀, hfrom, -, hled⟩ := h.moved.mem_of_mem hedge
    rw [← hled]
    exact h.lead_not_mem_doomed (h.jump_ne_target he₀ (hfrom ▸ hleft))
  have hlabels : ∀ x, (g.deleteVertices (doomed done)).1.isLabel x = true → g.isLabel x = true := by
    intro x hx
    have hxleft := (mem_live_deleteVertices.mp (mem_live_of_isLabel hx)).2
    rw [isLabel, op?_deleteVertices hxleft] at hx
    exact hx
  rw [Option.eq_none_iff_forall_ne_some] at hw ⊢
  intro d hd
  obtain ⟨-, ⟨op, hop, hclass⟩, hlabel, htarget, hends, i, o, hins, houts, hisource, hotarget⟩ :=
    chain?_eq_some hd
  rw [op?_deleteVertices hleft] at hop
  rw [hkept] at houts
  have hjump : g.IsJump t w := ⟨op, hop, hclass⟩
  obtain ⟨hi, hitarget⟩ := mem_ins.mp (hins ▸ List.mem_singleton_self i)
  have hi : i ∈ g.ins w := mem_ins.mpr ⟨List.mem_of_mem_filter hi, hitarget⟩
  refine hw _ (chain?_of_ends hjump (h.ins_eq_singleton henters hjump hi) houts ?_ ?_ ?_)
  · exact hlabels _ (hisource ▸ hlabel)
  · exact hlabels _ (hotarget ▸ htarget)
  · rw [hisource, hotarget]
    exact hends

end Rejected

end Collapsing

/-- Every vertex scanned is the jump of a chain that has been found, or no chain. -/
structure Exhausting (t : Table) (g₀ : Graph) (seen : List Int) (done : List Chain) (g : Graph) : Prop
    extends Scanning t g₀ seen done g where
  found_or : ∀ w ∈ seen, w ∈ done.map Chain.jump ∨ g.chain? t w = none

namespace Exhausting

variable {seen : List Int}

theorem start (hg : g.WellFormed) : Exhausting t g [] [] g :=
  ⟨Scanning.start hg, fun _ hw => absurd hw List.not_mem_nil⟩

theorem pass (h : Exhausting t g₀ seen done g) (hv : g.chain? t v = none) :
    Exhausting t g₀ (seen ++ [v]) done g := by
  refine ⟨h.toScanning.pass, ?_⟩
  intro w hw
  rcases List.mem_append.mp hw with hw | hw
  · exact h.found_or w hw
  · rw [List.mem_singleton.mp hw]
    exact Or.inr hv

theorem chain (h : Exhausting t g₀ seen done g)
    (hfalls : ∀ l, g₀.isLabel l = true → g₀.FallsOn l)
    (henters : ∀ x, ¬ g₀.isLabel x = true → (g₀.ins x).length ≤ 1) (hv : v ∉ seen)
    (hc : g.chain? t v = some c) :
    Exhausting t g₀ (seen ++ [v]) (done ++ [c]) (g.redirect c.label c.target) := by
  refine ⟨h.toScanning.chain hfalls hv hc, ?_⟩
  intro w hw
  rw [List.map_append, List.mem_append]
  rcases List.mem_append.mp hw with hw | hw
  · rcases h.found_or w hw with hjump | hnone
    · exact Or.inl (Or.inl hjump)
    · exact Or.inr (h.chain?_redirect henters hfalls hc hnone)
  · rw [List.mem_singleton.mp hw, List.map_singleton, (chain?_eq_some hc).1]
    exact Or.inl (Or.inr (List.mem_singleton_self v))

end Exhausting

theorem exhausting_collapseFrom (hg : g.WellFormed)
    (hfalls : ∀ l, g.isLabel l = true → g.FallsOn l)
    (henters : ∀ x, ¬ g.isLabel x = true → (g.ins x).length ≤ 1) :
    Exhausting t g g.live (collapseFrom t g.live g).2 (collapseFrom t g.live g).1 :=
  collapseFrom_induction (P := Exhausting t g) (fun _ _ _ _ hv h => h.pass hv)
    (fun _ _ _ _ _ hv hc h => h.chain hfalls henters hv hc) (Exhausting.start hg) hg.live_nodup

/-! ### Collapsing twice -/

theorem deleteVertices_nil : (g.deleteVertices []).1 = g := by simp [deleteVertices]

theorem collapseFrom_of_none {vs : List Int} (h : ∀ v ∈ vs, g.chain? t v = none) :
    collapseFrom t vs g = (g, []) := by
  induction vs with
  | nil => rfl
  | cons v vs ih =>
    rw [collapseFrom, h v (List.mem_cons_self ..)]
    exact ih fun w hw => h w (List.mem_cons_of_mem _ hw)

/-- A graph without chains is left as it is. -/
theorem collapse_of_none (h : ∀ v ∈ g.live, g.chain? t v = none) : g.collapse t = (g, 0) := by
  rw [collapse, collapseFrom_of_none h]
  simp [doomed, deleteVertices_nil]

/-- No chain is left. -/
theorem chain?_collapse (hg : g.WellFormed) (hfalls : ∀ l, g.isLabel l = true → g.FallsOn l)
    (henters : ∀ x, ¬ g.isLabel x = true → (g.ins x).length ≤ 1) (hv : v ∈ (g.collapse t).1.live) :
    (g.collapse t).1.chain? t v = none := by
  have hscan := exhausting_collapseFrom (t := t) hg hfalls henters
  obtain ⟨hlive, hleft⟩ := mem_live_deleteVertices.mp hv
  refine hscan.chain?_deleteVertices henters ?_ hleft
  apply (hscan.found_or v (hscan.live ▸ hlive)).resolve_left
  intro hjump
  obtain ⟨c, hc, hcv⟩ := List.mem_map.mp hjump
  exact hleft (mem_doomed.mpr ⟨c, hc, Or.inl hcv.symm⟩)

/-- Collapsing the chains of a built graph leaves none: done once more, it finds nothing and changes
nothing. -/
theorem collapse_collapse {r : Routine} {stats : BuildStats} (h : r.build t = .ok (g, stats)) :
    (g.collapse t).1.collapse t = ((g.collapse t).1, 0) := by
  obtain ⟨hg, hfalls⟩ := wellFormed_of_build h
  exact collapse_of_none fun _ hv => chain?_collapse hg hfalls (fun _ => enters_of_build h) hv

/-- A cycle of three chains, met out of their order, and an idle loop. -/
def chainCycle : Routine :=
  { id := 1
    ops :=
      [.labelJump { code := { name := "BranchValue" } } ⟨1, 1⟩, .label 4,
        .labelJump { code := { name := "Jump" } } ⟨1, 4⟩, .label 2,
        .labelJump { code := { name := "Jump" } } ⟨1, 3⟩, .label 1,
        .labelJump { code := { name := "Jump" } } ⟨1, 2⟩, .label 3,
        .labelJump { code := { name := "Jump" } } ⟨1, 1⟩] }

theorem chainCycle_collapse_collapse :
    ∃ g stats, chainCycle.build .default = .ok (g, stats) ∧
      ((g.collapse .default).1.live, (g.collapse .default).2) = ([0, 1, 2, 7, 8], 2) ∧
      (g.collapse .default).1.collapse .default = ((g.collapse .default).1, 0) :=
  ⟨_, _, rfl, rfl, collapse_collapse (r := chainCycle) rfl⟩

end FlowRecovery.Graph

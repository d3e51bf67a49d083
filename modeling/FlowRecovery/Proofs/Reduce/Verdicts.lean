import FlowRecovery.Proofs.Reduce.Arms

/-! What becomes of the branches. A scan without a fault gives every branch that it meets a verdict: the
block ends at a label, or the branch is skipped. The run of the scan is kept as a relation that carries
the verdicts in the order in which they were given, so that statements about whole runs are proved by
induction on it, with one case for each way of settling a branch. -/

namespace FlowRecovery

open FlowRecovery.Graph

/-- What becomes of a branch. -/
inductive Verdict where
  | ends (label : Int)
  | skipped (reason : SkipReason)
deriving DecidableEq, Repr

/-- A branch with its verdict. -/
structure Judged where
  vertex : Int
  verdict : Verdict
deriving DecidableEq, Repr

variable {t : Table} {g g₀ : Graph} {x : Int}

namespace Graph

/-- A branch stands at `x`. -/
def isBranch (g : Graph) (t : Table) (x : Int) : Bool := (g.op? x).any (t.classify · = .branch)

/-- The branches in the order of vertices. -/
def branches (g : Graph) (t : Table) : List Int := g.live.filter (g.isBranch t)

theorem isBranch_iff : g.isBranch t x = true ↔ ∃ op, g.op? x = some op ∧ t.classify op = .branch := by
  simp [isBranch, Option.any_eq_true]

theorem isBranch_of_op? {op : Operation} (hop : g.op? x = some op) (h : t.classify op = .branch) :
    g.isBranch t x = true :=
  isBranch_iff.mpr ⟨op, hop, h⟩

theorem mem_live_of_isBranch (h : g.isBranch t x = true) : x ∈ g.live := by
  obtain ⟨op, hop, -⟩ := isBranch_iff.mp h
  exact mem_live_of_op? hop

theorem mem_branches : x ∈ g.branches t ↔ g.isBranch t x = true := by
  rw [branches, List.mem_filter]
  exact ⟨And.right, fun h => ⟨mem_live_of_isBranch h, h⟩⟩

theorem not_isLabel_of_isBranch (h : g.isBranch t x = true) : ¬ g.isLabel x = true := by
  obtain ⟨op, hop, hclass⟩ := isBranch_iff.mp h
  exact not_isLabel_of_classify hop (t := t) (by simp [hclass])

theorem not_isJump_of_isBranch (h : g.isBranch t x = true) : ¬ g.IsJump t x := by
  obtain ⟨op, hop, hclass⟩ := isBranch_iff.mp h
  rintro ⟨op', hop', hjump⟩
  obtain rfl := Option.some.inj (hop.symm.trans hop')
  simp [hclass] at hjump

end Graph

namespace Structuring

variable {vs : List Int} {s s₁ s' : Structuring} {v : Vertex} {a : Arms} {log : List Judged}
  {ms : List (Int × Int)} {verdict : Verdict}

/-- The branch `v` has been counted and its block started. -/
def opened (s : Structuring) (v : Vertex) (a : Arms) : Structuring :=
  { s with
    graph := s.marked v a
    stats := { s.stats with found := s.stats.found + 1 } }

/-- What structuring the branch `v` with the arms `a` comes to. -/
inductive Settles (t : Table) (s : Structuring) (v : Vertex) (a : Arms) :
    Verdict → Structuring → Prop
  | unmet (hmerge : (s.marked v a).converge v.id a.elseArm a.ifArm = none) :
      Settles t s v a (.skipped .noConvergence)
        ((s.opened v a).skip v.id s.stats.found .noConvergence)
  | unlabelled {m : Merge} (hmerge : (s.marked v a).converge v.id a.elseArm a.ifArm = some m)
      (hlabel : (s.marked v a).isLabel m.vertex = false) :
      Settles t s v a (.skipped .nonLabelMerge)
        ((s.opened v a).skip v.id s.stats.found .nonLabelMerge)
  | closed {m : Merge} (hmerge : (s.marked v a).converge v.id a.elseArm a.ifArm = some m)
      (hlabel : (s.marked v a).isLabel m.vertex = true) :
      Settles t s v a (.ends m.vertex) ((s.opened v a).close t s.stats.found m)

theorem branch_of_arms (harms : arms s.graph v = .ok a) :
    s.branch t v =
      match (s.marked v a).converge v.id a.elseArm a.ifArm with
      | none => (s.opened v a).skip v.id s.stats.found .noConvergence
      | some m =>
        if (s.marked v a).isLabel m.vertex then (s.opened v a).close t s.stats.found m
        else (s.opened v a).skip v.id s.stats.found .nonLabelMerge := by
  unfold Structuring.branch
  simp only [harms]
  rfl

theorem Settles.eq_branch (h : Settles t s v a verdict s₁) (harms : arms s.graph v = .ok a) :
    s₁ = s.branch t v := by
  rw [branch_of_arms harms]
  cases h with
  | unmet hmerge => rw [hmerge]
  | unlabelled hmerge hlabel => simp only [hmerge, hlabel, Bool.false_eq_true, if_false]
  | closed hmerge hlabel => simp only [hmerge, hlabel, if_true]

theorem exists_settles (harms : arms s.graph v = .ok a) :
    ∃ verdict, Settles t s v a verdict (s.branch t v) := by
  rw [branch_of_arms harms]
  split
  · next hmerge => exact ⟨_, .unmet hmerge⟩
  · next m hmerge =>
    split_ifs with hlabel
    · exact ⟨_, .closed hmerge hlabel⟩
    · exact ⟨_, .unlabelled hmerge (by simpa using hlabel)⟩

theorem exists_arms_of_branch (hfault : (s.branch t v).fault = none) :
    ∃ a, arms s.graph v = .ok a := by
  cases harms : arms s.graph v with
  | ok a => exact ⟨a, rfl⟩
  | error f =>
    unfold Structuring.branch at hfault
    simp [harms] at hfault

/-- The scan of `vs` leads from one state to the other and gives the verdicts `log`. -/
inductive Scans (t : Table) : List Int → Structuring → List Judged → Structuring → Prop
  | nil (s : Structuring) : Scans t [] s [] s
  | pass {x : Int} {vs : List Int} {s s' : Structuring} {log : List Judged}
      (hplain : s.graph.isBranch t x = false) (rest : Scans t vs s log s') :
      Scans t (x :: vs) s log s'
  | branch {x : Int} {op : Operation} {a : Arms} {verdict : Verdict} {vs : List Int}
      {s s₁ s' : Structuring} {log : List Judged} (hop : s.graph.op? x = some op)
      (hclass : t.classify op = .branch) (harms : arms s.graph ⟨x, op⟩ = .ok a)
      (hsettles : Settles t s ⟨x, op⟩ a verdict s₁) (rest : Scans t vs s₁ log s') :
      Scans t (x :: vs) s (⟨x, verdict⟩ :: log) s'

/-- A scan without a fault has given every branch a verdict. -/
theorem exists_scans (hfault : (scan t vs s).fault = none) :
    ∃ log, Scans t vs s log (scan t vs s) := by
  induction vs generalizing s with
  | nil => exact ⟨[], .nil s⟩
  | cons x vs ih =>
    unfold scan at hfault ⊢
    split at hfault
    · next v hv =>
      obtain ⟨op, hop, rfl⟩ := Option.map_eq_some_iff.mp hv
      by_cases hclass : t.classify op = .branch
      · simp only [hclass, if_true] at hfault ⊢
        split_ifs at hfault ⊢ with hsome
        · rw [hfault] at hsome
          simp at hsome
        · have hnone : (s.branch t ⟨x, op⟩).fault = none := by simpa using hsome
          obtain ⟨a, harms⟩ := exists_arms_of_branch hnone
          obtain ⟨verdict, hsettles⟩ := exists_settles (t := t) harms
          obtain ⟨log, hlog⟩ := ih hfault
          exact ⟨_, .branch hop hclass harms hsettles hlog⟩
      · simp only [hclass, if_false] at hfault ⊢
        obtain ⟨log, hlog⟩ := ih hfault
        exact ⟨log, .pass (by simp [isBranch, hop, hclass]) hlog⟩
    · next hv =>
      obtain ⟨log, hlog⟩ := ih hfault
      exact ⟨log, .pass (by simp [isBranch, Option.map_eq_none_iff.mp hv]) hlog⟩

namespace Bypassed

theorem isBranch_eq (h : Bypassed t g₀ ms s) (x : Int) : s.graph.isBranch t x = g₀.isBranch t x :=
  h.any_branch_eq x

theorem opened (h : Bypassed t g₀ ms s) (v : Vertex) (a : Arms) :
    Bypassed t g₀ ms (s.opened v a) :=
  (h.marked v a).congr rfl rfl

theorem settles (h : Bypassed t g₀ ms s) (harms : arms s.graph v = .ok a)
    (hsettles : Settles t s v a verdict s₁) : ∃ ms', Bypassed t g₀ ms' s₁ := by
  rw [hsettles.eq_branch harms]
  exact h.branch

end Bypassed

namespace Scans

theorem bypassed (h : Scans t vs s log s') (hs : Bypassed t g₀ ms s) :
    ∃ ms', Bypassed t g₀ ms' s' := by
  induction h generalizing ms with
  | nil s => exact ⟨ms, hs⟩
  | pass _ _ ih => exact ih hs
  | branch _ _ harms hsettles _ ih =>
    obtain ⟨ms', hs'⟩ := hs.settles harms hsettles
    exact ih hs'

/-- The verdicts are those of the branches, in the order of the scan. -/
theorem vertices (h : Scans t vs s log s') (hs : Bypassed t g₀ ms s) :
    log.map Judged.vertex = vs.filter (g₀.isBranch t) := by
  induction h generalizing ms with
  | nil s => rfl
  | pass hplain _ ih =>
    rw [List.filter_cons_of_neg (by simp [← hs.isBranch_eq, hplain])]
    exact ih hs
  | branch hop hclass harms hsettles _ ih =>
    obtain ⟨ms', hs'⟩ := hs.settles harms hsettles
    rw [List.filter_cons_of_pos (by rw [← hs.isBranch_eq, isBranch_of_op? hop hclass]), List.map_cons,
      ih hs']

/-- The state in which a branch was given its verdict. -/
theorem exists_settles (h : Scans t vs s log s') (hs : Bypassed t g₀ ms s) {j : Judged}
    (hj : j ∈ log) :
    ∃ ms s op a s₁, Bypassed t g₀ ms s ∧ s.graph.op? j.vertex = some op ∧
      arms s.graph ⟨j.vertex, op⟩ = .ok a ∧ Settles t s ⟨j.vertex, op⟩ a j.verdict s₁ := by
  induction h generalizing ms with
  | nil s => simp at hj
  | pass _ _ ih => exact ih hs hj
  | branch hop _ harms hsettles _ ih =>
    rcases List.mem_cons.mp hj with rfl | hj
    · exact ⟨_, _, _, _, _, hs, hop, harms, hsettles⟩
    · obtain ⟨ms', hs'⟩ := hs.settles harms hsettles
      exact ih hs' hj

end Scans

end Structuring

/-! ### Once the bypassed jumps are deleted -/

namespace Structuring.Bypassed

variable {s : Structuring} {ms : List (Int × Int)}

theorem isJump_of_mem_gone (h : Bypassed t g₀ ms s) (hx : x ∈ s.gone) : g₀.IsJump t x := by
  rw [h.gone] at hx
  obtain ⟨m, hm, rfl⟩ := List.mem_map.mp hx
  exact h.jumps m hm

/-- What no jump satisfies holds of the same vertices before and after. -/
theorem any_op?_delete {p : Operation → Bool} (h : Bypassed t g₀ ms s)
    (hp : ∀ op, p op.clearMarkers = p op) (hjump : ∀ op, t.classify op = .jump → p op = false)
    (x : Int) :
    ((s.graph.deleteVertices s.gone).1.op? x).any p = (g₀.op? x).any p := by
  by_cases hx : x ∈ s.gone
  · obtain ⟨op, hop, hclass⟩ := h.isJump_of_mem_gone hx
    have hdead : x ∉ (s.graph.deleteVertices s.gone).1.live := by
      rw [mem_live_deleteVertices]
      exact fun hlive => hlive.2 hx
    rw [op?_of_not_mem hdead, hop, Option.any_some, hjump op hclass]
    rfl
  · rw [op?_deleteVertices hx, h.same.any_op? hp]

theorem isLabel_delete (h : Bypassed t g₀ ms s) (x : Int) :
    (s.graph.deleteVertices s.gone).1.isLabel x = g₀.isLabel x := by
  refine h.any_op?_delete (fun _ => rfl) ?_ x
  intro op hclass
  cases haction : op.action <;> simp_all [Table.classify, Operation.isLabel, Operation.label?]

theorem isBranch_delete (h : Bypassed t g₀ ms s) (x : Int) :
    (s.graph.deleteVertices s.gone).1.isBranch t x = g₀.isBranch t x := by
  refine h.any_op?_delete (fun _ => rfl) ?_ x
  intro op hclass
  simp [hclass]

theorem branches_delete (h : Bypassed t g₀ ms s) :
    (s.graph.deleteVertices s.gone).1.branches t = g₀.branches t := by
  unfold branches
  rw [funext h.isBranch_delete, ← h.same.live]
  show (s.graph.live.filter _).filter _ = _
  rw [List.filter_filter]
  refine List.filter_congr ?_
  intro x _
  by_cases hx : x ∈ s.gone
  · have hplain : g₀.isBranch t x = false := by
      rw [← Bool.not_eq_true]
      exact fun hbranch => not_isJump_of_isBranch hbranch (h.isJump_of_mem_gone hx)
    rw [hplain, Bool.false_and]
  · simp [hx]

end Structuring.Bypassed

/-- Structuring without a fault is a scan that gives every branch a verdict, and the deletion of the
bypassed jumps. -/
theorem Graph.exists_scans (hfault : (g.structureBranches t).fault = none) :
    ∃ log s, Structuring.Scans t g.live { graph := g.clearAllMarkers } log s ∧
      g.structureBranches t = { s with graph := (s.graph.deleteVertices s.gone).1 } := by
  unfold structureBranches at hfault ⊢
  simp only at hfault ⊢
  split_ifs at hfault ⊢ with hsome
  · rw [hfault] at hsome
    simp at hsome
  · have hnone : (Structuring.scan t g.live { graph := g.clearAllMarkers }).fault = none := by
      simpa using hsome
    obtain ⟨log, hlog⟩ := Structuring.exists_scans hnone
    exact ⟨log, _, hlog, rfl⟩

end FlowRecovery

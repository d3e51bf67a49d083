import FlowRecovery.Proofs.Flow.Outcome
import FlowRecovery.Proofs.Flow.Trailing
import FlowRecovery.Proofs.Pipeline.Jumps
import FlowRecovery.Proofs.Reduce.Verdicts

/-! Branches that control never comes to. A branch of a routine that obeys the format has both its
edges if it is reached, since it falls through and names a label. One that is not reached gets them from
the joining of trailing code, the edge to the next position in one round and the edge to its label in the
next, or else it is never entered and has one edge at most. So a run on such a routine fails exactly if
some branch is not entered, as one is that stands in unreached code in the middle of the routine. -/

namespace FlowRecovery

open FlowRecovery.Graph

variable {r : Routine} {labels : LabelIndex} {t : Table} {v : Int}

/-- No branch opcode ends the flow. -/
def Table.BranchesGoOn (t : Table) : Prop :=
  ∀ name, t.isBranch name = true → t.isTerminal name = false

/-- The label that the operation names, of whatever routine. -/
def Operation.ref? (op : Operation) : Option LabelRef :=
  match op.action with
  | .labelJump _ ref => some ref
  | _ => none

/-- What the format asks of a routine: labels are defined once, every label jump names a label that the
routine defines, and the last operation is no branch. -/
structure Routine.ObeysFormat (r : Routine) (t : Table) : Prop where
  labels : r.definedLabels.Nodup
  jumps : ∀ op ∈ r.ops, ∀ ref ∈ op.ref?, ref.routine = r.id ∧ ref.label ∈ r.definedLabels
  last : ∀ op ∈ r.ops.getLast?, t.classify op ≠ .branch

namespace Routine

theorem ObeysFormat.namesDefined (h : r.ObeysFormat t) : r.NamesDefined := by
  intro op hop label hlabel
  unfold Operation.localTarget? at hlabel
  split at hlabel
  · next root ref haction =>
    split_ifs at hlabel
    obtain rfl := Option.some.inj hlabel
    exact (h.jumps op hop ref (by simp [Operation.ref?, haction])).2
  · simp at hlabel

/-- The branch at `v` falls through to an operation behind it and names a label. -/
structure Forks (r : Routine) (labels : LabelIndex) (t : Table) (v : Int) (op : Operation)
    (label target : Int) : Prop where
  here : r.opAt? v = some op
  class_eq : t.classify op = .branch
  named : op.localTarget? r.id = some label
  found : labels.find? label = some target
  goesOn : t.endsFlow op = false
  behind : (r.opAt? (v + 1)).isSome = true

theorem ObeysFormat.forks (h : r.ObeysFormat t) (ht : t.BranchesGoOn) (hindex : r.labelIndex = .ok labels)
    {op : Operation} (hop : r.opAt? v = some op) (hclass : t.classify op = .branch) :
    ∃ label target, r.Forks labels t v op label target := by
  obtain ⟨hv, hget⟩ := opAt?_eq_some hop
  obtain ⟨hlt, -⟩ := List.getElem?_eq_some_iff.mp hget
  have hmem : op ∈ r.ops := List.mem_of_getElem? hget
  obtain ⟨root, ref, haction, hbranch⟩ : ∃ root ref, op.action = .labelJump root ref ∧
      t.isBranch root.code.name = true := by
    unfold Table.classify at hclass
    split at hclass
    · simp at hclass
    · simp at hclass
    · next root ref haction =>
      refine ⟨root, ref, haction, ?_⟩
      by_contra hplain
      simp only [hplain, if_false] at hclass
      split_ifs at hclass
  obtain ⟨hown, hdefined⟩ := h.jumps op hmem ref (by simp [Operation.ref?, haction])
  obtain ⟨labels', hindex', hfound⟩ := exists_labelIndex h.labels
  obtain rfl := Except.ok.inj (hindex.symm.trans hindex')
  obtain ⟨target, htarget⟩ := Option.isSome_iff_exists.mp (hfound ref.label hdefined)
  refine ⟨ref.label, target, hop, hclass, ?_, htarget, ?_, ?_⟩
  · simp [Operation.localTarget?, haction, hown]
  · simp [Table.endsFlow, Operation.root?, haction, ht _ hbranch]
  · refine isSome_opAt?_iff.mpr ⟨by omega, ?_⟩
    by_contra hend
    have hlast : r.ops.getLast? = some op := by
      rw [List.getLast?_eq_getElem?, ← hget]
      congr 1
      omega
    exact h.last op hlast hclass

end Routine

section Forks

variable {op : Operation} {label target : Int} (hforks : r.Forks labels t v op label target)

include hforks

theorem Routine.Forks.not_isLabel : ¬ (r.opAt? v).any (·.isLabel) = true := by
  have hclass := hforks.class_eq
  rw [hforks.here, Option.any_some]
  cases haction : op.action <;> simp_all [Table.classify, Operation.isLabel, Operation.label?]

theorem Routine.Forks.sideLabel?_eq : Tail.sideLabel? r t v = some label := by
  simp [Tail.sideLabel?, hforks.here, hforks.class_eq, hforks.named]

/-- A reached branch has both its edges from the walk. -/
theorem Walk.Finished.two_le_outDegree {w : Walk} (h : Walk.Finished r labels t w) (hv : v ∈ w.visited) :
    2 ≤ w.graph.outDegree v := by
  obtain ⟨level, -, hss⟩ := h.successors hv
  obtain ⟨op', hop', hown⟩ := Routine.successors?_eq_ok hss
  obtain rfl := Option.some.inj (hop'.symm.trans hforks.here)
  have hdegree : w.graph.outDegree v = (w.graph.drawn v).length := by simp [outDegree, drawn]
  rcases Routine.successorsOf_eq_ok_iff.mp hown with ⟨hnone, -⟩ | ⟨label', target', -, -, hdrawn⟩
  · simp [hforks.named] at hnone
  · rw [hdegree, ← hdrawn]
    simp [Routine.before, Routine.fallsThrough, hforks.behind, hforks.goesOn]

/-! ### Trailing code -/

/-- How far joining has come at `pos` with the unreached branch `v`: it is joined on both sides, or nothing
leads to it and at most the operation behind it is joined to it. -/
def Tail.Reaches (g : Graph) (v pos : Int) : Prop :=
  pos < v ∧ 2 ≤ g.outDegree v ∧ 0 < g.inDegree v ∨
    v ≤ pos ∧ g.inDegree v = 0 ∧ g.outDegree v = if v = pos then 1 else 0

theorem Tail.Reaches.round {s s' : Tail} {pos : Int} (hindex : r.labelIndex = .ok labels)
    (h : Reaches s.graph v pos) (hj : Joined r labels t pos s s') : Reaches s'.graph v (pos - 1) := by
  cases hj with
  | behind hbefore hpos hside =>
    have hne : pos ≠ v := by
      rintro rfl
      simp [hforks.sideLabel?_eq] at hside
    unfold Reaches at h ⊢
    simp only [join, outDegree_link hbefore hpos, inDegree_link hbefore hpos]
    split_ifs at h ⊢ <;> omega
  | @beside label' target' loop hbefore hpos hside hfind htarget =>
    have hlabel : target' ≠ v := by
      rintro rfl
      exact hforks.not_isLabel (Routine.isLabel_of_find? hindex hfind)
    unfold Reaches at h ⊢
    simp only [join, outDegree_link (g := s.graph.link (pos - 1) pos {}) (by simpa using hpos)
      (by simpa using htarget), inDegree_link (g := s.graph.link (pos - 1) pos {}) (by simpa using hpos)
      (by simpa using htarget), outDegree_link hbefore hpos, inDegree_link hbefore hpos]
    split_ifs at h ⊢ <;> omega

theorem Tail.Reaches.back {s : Tail} {n : Nat} (hindex : r.labelIndex = .ok labels)
    (h : Reaches s.graph v n) (hfault : (Tail.back r labels t n s).fault = none) :
    2 ≤ (Tail.back r labels t n s).graph.outDegree v ↔
      0 < (Tail.back r labels t n s).graph.inDegree v := by
  have hend : ∀ {g : Graph} {pos : Int}, Reaches g v pos → (2 ≤ g.outDegree v ↔ 0 < g.inDegree v) := by
    intro g pos hg
    unfold Reaches at hg
    split_ifs at hg <;> omega
  fun_induction Tail.back r labels t n s with
  | case1 s => exact hend h
  | case2 s => exact hend h
  | case3 pos s hin => exact hend h
  | case4 pos s hin s' hsome =>
    rw [hfault] at hsome
    simp at hsome
  | case5 pos s hin s' hnone ih =>
    refine ih ?_ hfault
    have hround := h.round hforks hindex (joined_of_attach (Option.not_isSome_iff_eq_none.mp hnone))
    rwa [show ((pos + 2 : Nat) : Int) - 1 = (pos + 1 : Nat) by omega] at hround

omit hforks in
/-- A reached operation other than the first is entered. -/
theorem Routine.BuiltFrom.inDegree_pos {w : Walk} {g : Graph} {stats : BuildStats}
    (h : BuiltFrom r t labels w g stats) (hv : v ∈ w.visited) (h0 : v ≠ 0) : 0 < g.inDegree v := by
  obtain ⟨extra, hedges, -⟩ := h.tail_extends.edges
  rw [inDegree, ins, h.graph_eq, hedges, List.filter_append, List.length_append]
  exact Nat.add_pos_left (List.length_pos_iff.mpr (h.finished.ins_ne_nil hv h0)) _

/-- A branch of a built graph has two edges if and only if it is the first operation or is entered. -/
theorem Routine.BuiltFrom.two_le_outDegree_iff {w : Walk} {g : Graph} {stats : BuildStats}
    (h : BuiltFrom r t labels w g stats) : 2 ≤ g.outDegree v ↔ v = 0 ∨ 0 < g.inDegree v := by
  by_cases hv : v ∈ w.visited
  · have hwalk := h.finished.two_le_outDegree hforks hv
    obtain ⟨extra, hedges, -⟩ := h.tail_extends.edges
    have hout : 2 ≤ g.outDegree v := by
      rw [outDegree, outs, h.graph_eq, hedges, List.filter_append, List.length_append]
      exact Nat.le_add_right_of_le hwalk
    exact ⟨fun _ => or_iff_not_imp_left.mpr (h.inDegree_pos hv), fun _ => hout⟩
  · have h0 : v ≠ 0 := by
      rintro rfl
      exact hv h.finished.inv.start
    have hlast := (isSome_opAt?_iff.mp hforks.behind).2
    have hstart : Tail.Reaches w.graph v (r.ops.length - 1 : Nat) := by
      refine Or.inr ⟨by omega, ?_, ?_⟩
      · rw [inDegree, h.finished.inv.ins_eq_nil hv]
        rfl
      · rw [outDegree, h.finished.outs_eq_nil fun hreached => hv (h.finished.mem_visited.mpr hreached),
          if_neg (by omega)]
        rfl
    rw [h.graph_eq, or_iff_right h0]
    exact hstart.back hforks h.index_eq h.noFault

end Forks

/-! ### Runs -/

section Runs

variable {g : Graph} {stats : BuildStats} {o : Options} {n : Nat} {s : Settings}

theorem fault_minimize_of_build (h : r.build t = .ok (g, stats)) (hsize : r.ops.length < 2 ^ 63)
    (p : Passes) :
    (g.minimize t p).fault =
      if p.skipBranches then none else (g.live.find? (g.lacksArm t)).bind g.complaint? := by
  obtain ⟨land, hfirst⟩ := exists_firstPass h p
  rw [fault_minimize, hfirst.fault_structureBranches (wellFormed_of_build h).1
    (nodup_levels_of_build h hsize)]

/-- What a run makes of a routine that has a graph. -/
theorem recover_of_build (hs : o.settings n = .ok s) (h : r.build s.table = .ok (g, stats)) :
    (o.recover n r).1.ok = (g.minimize s.table s.passes).fault.isNone ∧
      (o.recover n r).1.fault = (g.minimize s.table s.passes).fault.map
        (.within ("routine " ++ toString r.id ++ ": minimize")) := by
  unfold Options.recover Settings.recover
  simp only [hs, h]
  cases hfault : (g.minimize s.table s.passes).fault with
  | none => exact ⟨rfl, rfl⟩
  | some f =>
    refine ⟨rfl, ?_⟩
    simp only [Option.map_some, String.append_assoc]
    rfl

/-- A branch lacks an arm if and only if nothing leads to it. -/
theorem lacksArm_iff_unentered (h : r.build t = .ok (g, stats)) (ht : t.BranchesGoOn)
    (hr : r.ObeysFormat t) :
    g.lacksArm t v = true ↔ g.isBranch t v = true ∧ ¬ (v = 0 ∨ 0 < g.inDegree v) := by
  rw [lacksArm, ← isBranch, Bool.and_eq_true, decide_eq_true_iff, and_congr_right_iff]
  intro hbranch
  rcases Routine.build_eq_ok h with ⟨hops, rfl, rfl⟩ | ⟨labels, w, hb⟩
  · exact absurd (mem_live_of_isBranch hbranch) List.not_mem_nil
  · obtain ⟨op, hop, hclass⟩ := isBranch_iff.mp hbranch
    rw [hb.spans.op?] at hop
    obtain ⟨label, target, hforks⟩ := hr.forks ht hb.index_eq hop hclass
    rw [← hb.two_le_outDegree_iff hforks, Nat.not_le]

/-- Nothing leads to an operation that is not entered. -/
theorem not_reached_of_unentered (h : r.build t = .ok (g, stats)) (hindex : r.labelIndex = .ok labels)
    (hv : ¬ (v = 0 ∨ 0 < g.inDegree v)) : ¬ r.Reached labels t v := by
  rintro ⟨hstart, hpath⟩
  rcases Routine.build_eq_ok h with ⟨hops, rfl, rfl⟩ | ⟨labels', w, hb⟩
  · simp [Routine.opAt?, hops] at hstart
  · obtain rfl := Except.ok.inj (hindex.symm.trans hb.index_eq)
    have hvisited := hb.finished.mem_visited.mpr ⟨hstart, hpath⟩
    exact hv (or_iff_not_imp_left.mpr (hb.inDegree_pos hvisited))

/-- A routine that obeys the format has a graph, and a run on it succeeds if and only if branches are left
alone or each of them is the first operation or entered; if it fails, the fault is about the first branch
that is not entered, and control never comes to it. -/
theorem recover_ok_iff_branches_entered (hs : o.settings n = .ok s) (ht : s.table.BranchesGoOn)
    (hr : r.ObeysFormat s.table) (hsize : r.ops.length < 2 ^ 63) :
    ∃ labels g stats, r.labelIndex = .ok labels ∧ r.build s.table = .ok (g, stats) ∧
      ((o.recover n r).1.ok = true ↔ s.passes.skipBranches = true ∨
        ∀ v, g.isBranch s.table v = true → v = 0 ∨ 0 < g.inDegree v) ∧
      ∀ f, (o.recover n r).1.fault = some f → ∃ v op, g.op? v = some op ∧
        s.table.classify op = .branch ∧ g.inDegree v = 0 ∧ ¬ r.Reached labels s.table v ∧
        (∀ w < v, g.isBranch s.table w = true → w = 0 ∨ 0 < g.inDegree w) ∧
        f = .within ("routine " ++ toString r.id ++ ": minimize")
          (Structuring.ambiguous ⟨v, op.clearMarkers⟩
            (toString (g.outDegree v) ++ " out-edges, want 2")) := by
  obtain ⟨labels, hindex, -⟩ := Routine.exists_labelIndex hr.labels
  obtain ⟨g, stats, hbuild⟩ := Routine.exists_build hr.labels hr.namesDefined s.table
  obtain ⟨hok, hfault⟩ := recover_of_build hs hbuild
  have hlacks := fun v => lacksArm_iff_unentered (v := v) hbuild ht hr
  rw [fault_minimize_of_build hbuild hsize] at hok hfault
  refine ⟨labels, g, stats, hindex, hbuild, ?_, ?_⟩
  · rw [hok]
    cases s.passes.skipBranches with
    | true => simp
    | false =>
      cases hfind : g.live.find? (g.lacksArm s.table) with
      | none =>
        refine ⟨fun _ => Or.inr fun v hbranch => ?_, fun _ => rfl⟩
        by_contra hdead
        exact List.find?_eq_none.mp hfind v (mem_live_of_isBranch hbranch)
          ((hlacks v).mpr ⟨hbranch, hdead⟩)
      | some v =>
        obtain ⟨hbranch, hdead⟩ := (hlacks v).mp (List.find?_some hfind)
        obtain ⟨op, hop, -⟩ := isBranch_iff.mp hbranch
        simp only [Option.bind_some, complaint?, hop]
        refine ⟨fun hnone => absurd hnone (by simp), ?_⟩
        rintro (hskip | hall)
        · exact absurd hskip Bool.false_ne_true
        · exact absurd (hall v hbranch) hdead
  · intro f hf
    rw [hfault, Option.map_eq_some_iff] at hf
    obtain ⟨f', hf', rfl⟩ := hf
    split_ifs at hf'
    obtain ⟨v, hfind, hsaid⟩ := Option.bind_eq_some_iff.mp hf'
    obtain ⟨hlack, hbefore⟩ := (find?_lacksArm_iff (wellFormed_of_build hbuild).1).mp hfind
    obtain ⟨hbranch, hdead⟩ := (hlacks v).mp hlack
    obtain ⟨op, hop, hclass⟩ := isBranch_iff.mp hbranch
    obtain ⟨op', hop', rfl⟩ := Option.map_eq_some_iff.mp hsaid
    obtain rfl := Option.some.inj (hop.symm.trans hop')
    refine ⟨v, op, hop, hclass, by omega, not_reached_of_unentered hbuild hindex hdead, ?_, rfl⟩
    intro w hw hown
    by_contra hdead'
    exact Bool.eq_false_iff.mp (hbefore w hw) ((hlacks w).mpr ⟨hown, hdead'⟩)

end Runs

theorem branchesGoOn_default : Table.default.BranchesGoOn := by
  have hnone : ∀ name ∈ Table.default.branches, Table.default.isTerminal name = false := by decide
  intro name hname
  have hmem : name ∈ Table.default.branches.eraseDups := List.contains_iff_mem.mp hname
  exact hnone name (List.mem_eraseDups.mp hmem)

/-- Behind the end of the flow stands a branch with its label. -/
def trailingBranch : Routine :=
  { id := 1
    ops :=
      [.plain { code := { name := "Message" } }, .plain { code := { name := "Return" } },
        .labelJump { code := { name := "BranchValue" } } ⟨1, 1⟩,
        .plain { code := { name := "Message" } }, .label 1,
        .plain { code := { name := "Return" } }] }

theorem trailingBranch_ok_iff_branches_entered :
    ∃ s, ({} : Options).settings 1 = .ok s ∧ s.table.BranchesGoOn ∧
      trailingBranch.ObeysFormat s.table ∧ trailingBranch.ops.length < 2 ^ 63 ∧
      (({} : Options).recover 1 trailingBranch).1.ok = true ∧
      ∃ labels g stats, trailingBranch.labelIndex = .ok labels ∧
        trailingBranch.build s.table = .ok (g, stats) ∧
        ((({} : Options).recover 1 trailingBranch).1.ok = true ↔ s.passes.skipBranches = true ∨
          ∀ v, g.isBranch s.table v = true → v = 0 ∨ 0 < g.inDegree v) ∧
        ∀ f, (({} : Options).recover 1 trailingBranch).1.fault = some f → ∃ v op, g.op? v = some op ∧
          s.table.classify op = .branch ∧ g.inDegree v = 0 ∧
          ¬ trailingBranch.Reached labels s.table v ∧
          (∀ w < v, g.isBranch s.table w = true → w = 0 ∨ 0 < g.inDegree w) ∧
          f = .within ("routine " ++ toString trailingBranch.id ++ ": minimize")
            (Structuring.ambiguous ⟨v, op.clearMarkers⟩
              (toString (g.outDegree v) ++ " out-edges, want 2")) := by
  have hformat : trailingBranch.ObeysFormat .default := ⟨by decide, by decide, by decide⟩
  exact ⟨{ workers := 1 }, rfl, branchesGoOn_default, hformat, by decide, by decide,
    recover_ok_iff_branches_entered rfl branchesGoOn_default hformat (by decide)⟩

/-- A jump over a branch. -/
def jumpedBranch : Routine :=
  { id := 1
    ops :=
      [.labelJump { code := { name := "Jump" } } ⟨1, 1⟩,
        .labelJump { code := { name := "BranchValue" } } ⟨1, 1⟩, .label 1,
        .plain { code := { name := "Return" } }] }

/-- The routine obeys the format, and the run fails all the same. -/
theorem jumpedBranch_fails :
    ∃ s, ({} : Options).settings 1 = .ok s ∧ s.table.BranchesGoOn ∧
      jumpedBranch.ObeysFormat s.table ∧ (({} : Options).recover 1 jumpedBranch).1.ok = false ∧
      (({} : Options).recover 1 jumpedBranch).1.fault =
        some (.within "routine 1: minimize" (.coded .ambiguousBranch
          "branch BranchValue -> @label_1 at 1 has 0 out-edges, want 2")) :=
  ⟨{ workers := 1 }, rfl, branchesGoOn_default, ⟨by decide, by decide, by decide⟩, by decide, by decide⟩

end FlowRecovery

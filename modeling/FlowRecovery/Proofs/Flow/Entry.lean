import FlowRecovery.Proofs.Flow.Labels

/-! How the vertices of a built graph are entered and left. Control comes to an operation that is not
a label from the operation before it only, so at most one edge enters it: the walk draws the edge
behind an operation once, and joining the trailing code draws it only where nothing enters. A jump
that ends the flow has no edge but the one to the label it names. -/

namespace FlowRecovery

variable {r : Routine} {labels : LabelIndex} {t : Table} {v : Int}

namespace Routine

variable {p q : Int} {level : Int64} {ss : List Successor}

theorem isLabel_of_find? (hindex : r.labelIndex = .ok labels) {label : Int}
    (hq : labels.find? label = some q) : (r.opAt? q).any (·.isLabel) = true := by
  obtain ⟨op, hop, hown⟩ := label_of_find? hindex hq
  simp [hop, Operation.isLabel, hown]

/-- A successor that is not a label is the next position. -/
theorem eq_next_of_mem_successors (hindex : r.labelIndex = .ok labels)
    (h : r.successors? labels t p level = some (.ok ss)) {s : Successor} (hs : s ∈ ss)
    (hlabel : ¬ (r.opAt? s.pos).any (·.isLabel) = true) : s.pos = p + 1 := by
  rcases mem_successors h hs with rfl | ⟨target, hnamed, rfl⟩
  · rfl
  · obtain ⟨op, hop, hown⟩ := isLabel_of_named? hindex hnamed
    exact absurd (by rw [hop, Option.any_some, hown]) hlabel

/-- An operation leads to one that is not a label over at most one edge. -/
theorem length_unlabelled_successors_le (hindex : r.labelIndex = .ok labels)
    (h : r.successors? labels t p level = some (.ok ss))
    (hq : ¬ (r.opAt? q).any (·.isLabel) = true) : (ss.filter (·.pos = q)).length ≤ 1 := by
  obtain ⟨op, -, hss⟩ := successors?_eq_ok h
  obtain ⟨before, after, honward, hcases⟩ := successorsOf_eq_ok hss
  have hfew : ((before ++ after).filter (·.pos = q)).length ≤ 1 := by
    refine Nat.le_trans (List.length_filter_le _ _) ?_
    rcases honward with hnil | hone
    · simp [hnil]
    · simp [hone]
  rcases hcases with ⟨-, rfl⟩ | ⟨label, target, -, hfind, rfl⟩
  · exact hfew
  · have htarget : target ≠ q := by
      rintro rfl
      exact hq (isLabel_of_find? hindex hfind)
    rw [List.filter_append, List.filter_cons_of_neg (by simpa using htarget), ← List.filter_append]
    exact hfew

/-- A local jump that neither falls through nor holds on has the label as its only successor. -/
theorem successors_of_ends {op : Operation} (hop : r.opAt? p = some op)
    (hends : t.endsFlow op = true) (hhold : op.root?.any (t.isHold ·.code.name) = false)
    (h : r.successors? labels t p level = some (.ok ss)) :
    ss = [] ∨ ∃ label target, labels.find? label = some target ∧ ss = [⟨level + 1, target⟩] := by
  obtain ⟨op', hop', hss⟩ := successors?_eq_ok h
  obtain rfl : op' = op := Option.some.inj (hop'.symm.trans hop)
  have hfalls : fallsThrough t op' (r.opAt? (p + 1)) = false := by simp [fallsThrough, hends]
  have hholds : holdsOn t op' (r.opAt? (p + 1)) = false := by simp [holdsOn, hhold]
  cases hlocal : op'.localTarget? r.id with
  | none =>
    simp only [successorsOf, hlocal, hfalls, hholds] at hss
    exact Or.inl (Except.ok.inj hss).symm
  | some label =>
    cases hfind : labels.find? label with
    | none => simp [successorsOf, hlocal, labelPos, hfind, bind, Except.bind] at hss
    | some target =>
      simp only [successorsOf, hlocal, hfalls, hholds, labelPos, hfind, bind, Except.bind] at hss
      exact Or.inr ⟨label, target, hfind, (Except.ok.inj hss).symm⟩

end Routine

/-! ### Entering -/

theorem Walk.Finished.length_ins_le {w : Walk} (h : Walk.Finished r labels t w)
    (hindex : r.labelIndex = .ok labels) (hv : ¬ (r.opAt? v).any (·.isLabel) = true) :
    (w.graph.ins v).length ≤ 1 := by
  have hsource : ∀ e ∈ w.graph.ins v, e.source = v - 1 := by
    intro e he
    obtain ⟨hmem, htarget⟩ := Graph.mem_ins.mp he
    obtain ⟨level, -, hss⟩ := h.successors (h.inv.source_visited e hmem)
    have hdrawn : (⟨e.attrs.level, e.target⟩ : Successor) ∈ w.graph.drawn e.source :=
      List.mem_map_of_mem (Graph.mem_outs.mpr ⟨hmem, rfl⟩)
    have hnext := Routine.eq_next_of_mem_successors hindex hss hdrawn (by rwa [htarget])
    simp only at hnext
    omega
  have hins : w.graph.ins v = (w.graph.outs (v - 1)).filter (·.target = v) := by
    unfold Graph.ins Graph.outs
    rw [List.filter_filter]
    refine List.filter_congr ?_
    intro e he
    by_cases htarget : e.target = v
    · simp [htarget, hsource e (Graph.mem_ins.mpr ⟨he, htarget⟩)]
    · simp [htarget]
  by_cases hbefore : v - 1 ∈ w.visited
  · obtain ⟨level, -, hss⟩ := h.successors hbefore
    have hfew := Routine.length_unlabelled_successors_le hindex hss hv
    rw [Graph.drawn, List.filter_map, List.length_map] at hfew
    rw [hins]
    exact hfew
  · have hnone : w.graph.outs (v - 1) = [] :=
      h.outs_eq_nil fun hreached => hbefore (h.mem_visited.mpr hreached)
    rw [hins, hnone]
    exact Nat.zero_le _

theorem Tail.length_ins_round {s s' : Tail} {pos : Int} (hindex : r.labelIndex = .ok labels)
    (hv : ¬ (r.opAt? v).any (·.isLabel) = true) (hs : (s.graph.ins v).length ≤ 1)
    (hins : s.graph.inDegree pos = 0) (hj : Joined r labels t pos s s') :
    (s'.graph.ins v).length ≤ 1 := by
  have hbehind : pos - 1 ∈ s.graph.live → pos ∈ s.graph.live →
      ((s.graph.link (pos - 1) pos {}).ins v).length ≤ 1 := by
    intro hbefore hpos
    rw [Graph.ins_link hbefore hpos]
    by_cases heq : pos = v
    · subst heq
      rw [List.length_eq_zero_iff.mp hins]
      simp
    · simpa [heq] using hs
  cases hj with
  | behind hbefore hpos hside => exact hbehind hbefore hpos
  | @beside label target loop hbefore hpos hside hfind htarget =>
    have hne : target ≠ v := by
      rintro rfl
      exact hv (Routine.isLabel_of_find? hindex hfind)
    have hins' : ((s.graph.link (pos - 1) pos {}).link pos target { level := 1, loop }).ins v =
        (s.graph.link (pos - 1) pos {}).ins v := by
      rw [Graph.ins_link (by simpa using hpos) (by simpa using htarget), if_neg hne,
        List.append_nil]
    simp only [Tail.join, hins']
    exact hbehind hbefore hpos

namespace Routine.BuiltFrom

variable {w : Walk} {g : Graph} {stats : BuildStats}

/-- At most one edge enters a vertex that is not a label. -/
theorem length_ins_le (h : BuiltFrom r t labels w g stats) (hv : ¬ g.isLabel v = true) :
    (g.ins v).length ≤ 1 := by
  rw [Graph.isLabel, h.spans.op?] at hv
  rw [h.graph_eq]
  exact Tail.back_induction (P := fun s => (s.graph.ins v).length ≤ 1)
    (fun s s' pos hs _ hins hj => Tail.length_ins_round h.index_eq hv hs hins hj) _
    (h.finished.length_ins_le h.index_eq hv) h.noFault

/-- Without trailing code the edges are those of the walk. -/
theorem edges_eq_walk (h : BuiltFrom r t labels w g stats) (htail : stats.tailEdges = 0) :
    g.edges = w.graph.edges := by
  obtain ⟨extra, hedges, hlen, -⟩ := h.tail_extends.edges
  have hnone : (Tail.reconnect w.graph r labels t).added = 0 := by
    rw [h.stats_eq] at htail
    exact htail
  rw [hnone, List.length_eq_zero_iff] at hlen
  rw [h.graph_eq, hedges, hlen, List.append_nil]

end Routine.BuiltFrom

/-! ### Leaving -/

/-- Every jump opcode ends the flow, and none is the hold opcode. -/
def Table.JumpsEnd (t : Table) : Prop :=
  ∀ name, t.isJump name = true → t.isTerminal name = true ∧ t.isHold name = false

theorem Table.JumpsEnd.of_classify {op : Operation} (ht : t.JumpsEnd) (h : t.classify op = .jump) :
    t.endsFlow op = true ∧ op.root?.any (t.isHold ·.code.name) = false := by
  unfold classify at h
  split at h
  · simp at h
  · simp at h
  · next root target haction =>
    split_ifs at h with hbranch hjump
    have hroot : op.root? = some root := by rw [Operation.root?, haction]
    simpa [endsFlow, hroot] using ht root.code.name hjump

/-- At most one edge leaves `v`, and it goes to a label. -/
structure Graph.LeavesForLabel (g : Graph) (v : Int) : Prop where
  few : (g.outs v).length ≤ 1
  label : ∀ e ∈ g.outs v, g.isLabel e.target = true

theorem Routine.BuiltFrom.leavesForLabel {w : Walk} {g : Graph} {stats : BuildStats}
    {op : Operation} (h : BuiltFrom r t labels w g stats) (ht : t.JumpsEnd)
    (htail : stats.tailEdges = 0) (hop : g.op? v = some op) (hclass : t.classify op = .jump) :
    g.LeavesForLabel v := by
  rw [h.spans.op?] at hop
  have houts : g.outs v = w.graph.outs v := by rw [Graph.outs, Graph.outs, h.edges_eq_walk htail]
  by_cases hv : v ∈ w.visited
  · obtain ⟨level, -, hss⟩ := h.finished.successors hv
    obtain ⟨hends, hhold⟩ := ht.of_classify hclass
    have hdrawn := successors_of_ends hop hends hhold hss
    rw [Graph.drawn, ← houts, List.map_eq_nil_iff] at hdrawn
    rcases hdrawn with hnil | ⟨label, target, hfind, hone⟩
    · exact ⟨by simp [hnil], by simp [hnil]⟩
    · obtain ⟨e, he, hsucc⟩ := List.map_eq_singleton_iff.mp hone
      refine ⟨by simp [he], ?_⟩
      intro e' he'
      rw [he, List.mem_singleton] at he'
      have htarget : e.target = target := congrArg Successor.pos hsucc
      rw [he', htarget, Graph.isLabel, h.spans.op?]
      exact isLabel_of_find? h.index_eq hfind
  · have hnone : g.outs v = [] :=
      houts.trans (h.finished.outs_eq_nil fun hreached => hv (h.finished.mem_visited.mpr hreached))
    exact ⟨by simp [hnone], by simp [hnone]⟩

end FlowRecovery

import FlowRecovery.Proofs.Flow.Prolonged
import FlowRecovery.Proofs.Graph.Sealed

/-! Where trailing code hangs on. Joining works back from the end of the routine and stops at the first
position that something leads to. A reached position is such a one, so at most one edge leads from
reached code to unreached code, from an operation to the next. That operation does not go on by itself:
it is no label, and the walk has drawn at most one edge of it. So the reached positions are sealed, unless
an unreached operation leads back to one. -/

namespace FlowRecovery

open FlowRecovery.Graph

variable {r : Routine} {labels : LabelIndex} {t : Table} {w : Walk} {p : Int}

namespace Walk.Finished

variable (h : Finished r labels t w)

include h

theorem ins_ne_nil (hp : p ∈ w.visited) (h0 : p ≠ 0) : w.graph.ins p ≠ [] := by
  obtain ⟨level, hlevel, -⟩ := h.successors hp
  rcases hlevel with ⟨hzero, -⟩ | ⟨-, e, he, -⟩
  · exact absurd hzero h0
  · exact List.ne_nil_of_mem he

/-- A reached operation in front of an unreached one has no successor but the label that it names, and
is no label itself. -/
theorem before_unreached (hp : p ∈ w.visited) (hnext : p + 1 ∉ w.visited)
    (hbehind : (r.opAt? (p + 1)).isSome = true) :
    (w.graph.outs p).length ≤ 1 ∧ ¬ (r.opAt? p).any (·.isLabel) = true := by
  obtain ⟨level, -, hss⟩ := h.successors hp
  obtain ⟨op, hop, hown⟩ := Routine.successors?_eq_ok hss
  have hnone : r.before t op p level ++ r.after t op p level = [] := by
    refine List.eq_nil_iff_forall_not_mem.mpr ?_
    intro s hs
    obtain ⟨e, he, rfl⟩ := List.mem_map.mp (Routine.subset_successorsOf hown hs)
    have htarget := h.inv.target_visited e (mem_outs.mp he).1
    exact hnext (Routine.pos_of_mem_onward hs ▸ htarget)
  rw [List.append_eq_nil_iff] at hnone
  refine ⟨?_, ?_⟩
  · have hlen : (w.graph.outs p).length = (w.graph.drawn p).length := by simp [drawn]
    rw [hlen]
    rcases Routine.successorsOf_eq_ok_iff.mp hown with ⟨-, hdrawn⟩ | ⟨label, target, -, -, hdrawn⟩
    · simp [← hdrawn, hnone.1, hnone.2]
    · simp [← hdrawn, hnone.1, hnone.2]
  · intro hlabel
    rw [hop, Option.any_some, Operation.isLabel] at hlabel
    have hends : t.endsFlow op = false := by
      cases haction : op.action <;>
        simp_all [Operation.label?, Table.endsFlow, Operation.root?]
    simp [Routine.before, Routine.fallsThrough, hbehind, hends] at hnone

end Walk.Finished

namespace Tail

variable {s s' : Tail} {pos : Int}

/-- A round draws the edge from the position before, and then edges of its own position only. -/
theorem Joined.edges (hj : Joined r labels t pos s s') :
    ∃ e rest, s'.graph.edges = s.graph.edges ++ e :: rest ∧ e.source = pos - 1 ∧ e.target = pos ∧
      ∀ f ∈ rest, f.source = pos := by
  obtain ⟨rest, hedges, hrest⟩ := hj.edges_eq
  refine ⟨_, rest, hedges, rfl, rfl, ?_⟩
  rcases hrest with ⟨-, rfl⟩ | ⟨label, target, loop, -, -, rfl⟩
  · simp
  · simp

variable (hw : Walk.Finished r labels t w)

include hw

theorem unreached_of_inDegree (hext : Extends w.graph s) {n : Nat} (hn : 0 < n)
    (hins : s.graph.inDegree n = 0) : (n : Int) ∉ w.visited := by
  intro hmem
  obtain ⟨extra, hedges, -⟩ := hext.edges
  obtain ⟨e, he⟩ := List.exists_mem_of_ne_nil _ (hw.ins_ne_nil hmem (by omega))
  obtain ⟨hedge, htarget⟩ := mem_ins.mp he
  have hin : e ∈ s.graph.ins n :=
    mem_ins.mpr ⟨hedges ▸ List.mem_append_left _ hedge, htarget⟩
  rw [List.length_eq_zero_iff.mp hins] at hin
  exact List.not_mem_nil hin

/-- The edges that leave reached code lead to the next position. -/
theorem next_of_leaves (hfault : (reconnect w.graph r labels t).fault = none) :
    ∀ e ∈ (reconnect w.graph r labels t).graph.edges, e ∈ w.graph.edges ∨ e.source ∉ w.visited ∨
      e.target = e.source + 1 ∧ e.target ∉ w.visited := by
  refine (back_induction (P := fun s => Extends w.graph s ∧ ∀ e ∈ s.graph.edges,
    e ∈ w.graph.edges ∨ e.source ∉ w.visited ∨ e.target = e.source + 1 ∧ e.target ∉ w.visited) ?_ _
    ⟨.refl hw.inv.wellFormed, fun e he => Or.inl he⟩ hfault).2
  rintro s s' pos ⟨hext, hs⟩ hpos hins hj
  have hout := unreached_of_inDegree hw hext (by omega) hins
  refine ⟨hext.round hj, ?_⟩
  intro e he
  obtain ⟨first, rest, hedges, hsource, htarget, hrest⟩ := hj.edges
  rw [hedges, List.mem_append, List.mem_cons] at he
  rcases he with he | rfl | he
  · exact hs e he
  · refine Or.inr (Or.inr ⟨?_, htarget ▸ hout⟩)
    rw [hsource, htarget]
    omega
  · exact Or.inr (Or.inl (hrest e he ▸ hout))

/-- Once an edge out of reached code has been drawn, joining stops at its source. -/
theorem border_back {n : Nat} (hext : Extends w.graph s)
    (hout : ∀ e ∈ s.graph.edges, ¬ leaves w.visited e = true)
    (hfault : (back r labels t n s).fault = none) :
    (back r labels t n s).graph.edges.countP (leaves w.visited) ≤ 1 := by
  fun_induction back r labels t n s with
  | case1 s => rw [List.countP_eq_zero.mpr hout]; exact Nat.zero_le 1
  | case2 s => rw [List.countP_eq_zero.mpr hout]; exact Nat.zero_le 1
  | case3 pos s hin => rw [List.countP_eq_zero.mpr hout]; exact Nat.zero_le 1
  | case4 pos s hin s' hsome =>
    rw [hfault] at hsome
    simp at hsome
  | case5 pos s hin s' hnone ih =>
    have hj := joined_of_attach (Option.not_isSome_iff_eq_none.mp hnone)
    have hunreached := unreached_of_inDegree hw hext (by omega) (Nat.eq_zero_of_not_pos hin)
    have hext' : Extends w.graph s' := hext.round hj
    obtain ⟨first, rest, hedges, hsource, htarget, hrest⟩ := hj.edges
    have hlast : ∀ e ∈ rest, ¬ leaves w.visited e = true := by
      intro e he hleaves
      exact hunreached (hrest e he ▸ (leaves_iff.mp hleaves).1)
    by_cases hbefore : ((pos + 1 : Nat) : Int) ∈ w.visited
    · have hstop : back r labels t (pos + 1) s' = s' := by
        cases pos with
        | zero => rfl
        | succ k =>
          unfold back
          refine if_pos (Nat.pos_of_ne_zero fun hzero => ?_)
          exact unreached_of_inDegree hw hext' (by omega) hzero hbefore
      rw [hstop]
      show s'.graph.edges.countP _ ≤ 1
      rw [hedges, List.countP_append, List.countP_eq_zero.mpr hout, List.countP_cons,
        List.countP_eq_zero.mpr hlast]
      split_ifs <;> omega
    · refine ih hext' ?_ hfault
      intro e he
      rw [hedges, List.mem_append, List.mem_cons] at he
      rcases he with he | rfl | he
      · exact hout e he
      · intro hleaves
        have hmem := (leaves_iff.mp hleaves).1
        rw [hsource] at hmem
        exact hbefore (by rwa [show ((pos + 1 : Nat) : Int) = ((pos + 2 : Nat) : Int) - 1 by omega])
      · exact hlast e he

end Tail

namespace Routine.BuiltFrom

variable {g : Graph} {stats : BuildStats}

/-- The edges that joining adds to those of the walk lead out of reached code if they start there. -/
theorem exists_tail (h : BuiltFrom r t labels w g stats) :
    ∃ extra, g.edges = w.graph.edges ++ extra ∧
      ∀ e ∈ extra, e.source ∈ w.visited → e.target = e.source + 1 ∧ e.target ∉ w.visited := by
  obtain ⟨extra, hedges, -, hids⟩ := h.tail_extends.edges
  refine ⟨extra, h.graph_eq ▸ hedges, ?_⟩
  intro e he hsource
  have hmem := hedges ▸ List.mem_append_right w.graph.edges he
  rcases Tail.next_of_leaves h.finished h.noFault e hmem with hwalk | hout | hnext
  · have hbelow := h.finished.inv.wellFormed.ids_below e hwalk
    have habove := hids e he
    omega
  · exact absurd hsource hout
  · exact hnext

/-- An edge out of reached code leaves an operation that does not go on by itself. -/
theorem of_leaves (h : BuiltFrom r t labels w g stats) {e : Edge} (he : e ∈ g.edges)
    (hleaves : leaves w.visited e = true) :
    (w.graph.outs e.source).length ≤ 1 ∧ ¬ g.isLabel e.source = true := by
  obtain ⟨hsource, htarget⟩ := leaves_iff.mp hleaves
  obtain ⟨extra, hedges, htail⟩ := h.exists_tail
  rcases List.mem_append.mp (hedges ▸ he) with hwalk | hextra
  · exact absurd (h.finished.inv.target_visited e hwalk) htarget
  · have hbehind := (htail e hextra hsource).1
    rw [isLabel, h.spans.op?]
    refine h.finished.before_unreached hsource (hbehind ▸ htarget) ?_
    rw [← hbehind]
    exact h.spans.mem_live.mp (h.wellFormed.target_live e he)

/-- Reached code is sealed if no unreached operation leads to it. -/
theorem sealed (h : BuiltFrom r t labels w g stats)
    (hinward : ∀ e ∈ g.edges, e.target ∈ w.visited → e.source ∈ w.visited) :
    Sealed w.visited g := by
  have hborder : g.edges.countP (leaves w.visited) ≤ 1 := by
    rw [h.graph_eq]
    refine Tail.border_back h.finished (.refl h.finished.inv.wellFormed) ?_ h.noFault
    intro e he hleaves
    exact (leaves_iff.mp hleaves).2 (h.finished.inv.target_visited e he)
  refine ⟨hinward, hborder, ?_⟩
  intro e he hleaves
  have hown := (h.of_leaves he hleaves).1
  obtain ⟨extra, hedges, htail⟩ := h.exists_tail
  -- beyond the walk's edges only the one that leaves is added
  have hadded : extra.countP (·.source = e.source) ≤ extra.countP (leaves w.visited) := by
    refine List.countP_mono_left ?_
    intro f hf hsource
    have hfrom : f.source ∈ w.visited := (of_decide_eq_true hsource) ▸ (leaves_iff.mp hleaves).1
    exact leaves_iff.mpr ⟨hfrom, (htail f hf hfrom).2⟩
  have hfew : extra.countP (leaves w.visited) ≤ 1 := by
    rw [hedges, List.countP_append] at hborder
    omega
  have hlen : (g.outs e.source).length =
      (w.graph.outs e.source).length + extra.countP (·.source = e.source) := by
    rw [outs, hedges, List.filter_append, List.length_append, List.countP_eq_length_filter]
    rfl
  omega

/-! ### Longer routines -/

/-- Reached positions are positions of the routine. -/
theorem visited_inside (h : BuiltFrom r t labels w g stats) :
    ∀ p ∈ w.visited, 0 ≤ p ∧ p < r.ops.length := fun p hp =>
  isSome_opAt?_iff.mp (h.finished.inv.spans.mem_live.mp (h.finished.inv.visited_live p hp))

/-- The edges between reached operations are those of the walk. -/
theorem edges_core (h : BuiltFrom r t labels w g stats) (n : Nat) :
    (g.core w.visited n).edges = w.graph.edges.map Edge.bare := by
  obtain ⟨extra, hedges, htail⟩ := h.exists_tail
  have hwalk : w.graph.edges.filter (inside w.visited) = w.graph.edges := by
    refine List.filter_eq_self.mpr ?_
    intro e he
    exact inside_iff.mpr ⟨h.finished.inv.source_visited e he, h.finished.inv.target_visited e he⟩
  have hnone : extra.filter (inside w.visited) = [] := by
    refine List.filter_eq_nil_iff.mpr ?_
    intro e he hin
    obtain ⟨hsource, htarget⟩ := inside_iff.mp hin
    exact (htail e he hsource).2 htarget
  rw [edges_core_of_filter, hedges, List.filter_append, hwalk, hnone, List.append_nil]

/-- Operations that control never comes to do not change the core of the reached ones. -/
theorem core_followedBy {extra : List Operation} {labels' : LabelIndex} {w' : Walk} {g' : Graph}
    {stats' : BuildStats} (h : BuiltFrom r t labels w g stats)
    (h' : BuiltFrom (r.followedBy extra) t labels' w' g' stats') (htwin : Walk.Twin w w') :
    g.core w.visited r.ops.length = g'.core w.visited r.ops.length := by
  have hops : g'.ops.take r.ops.length = g.ops.take r.ops.length := by
    rw [h.spans.ops, h'.spans.ops, followedBy, List.take_left, List.take_length]
  have hlive : (g'.live.filter fun x => decide (x ∈ w.visited)) =
      g.live.filter fun x => decide (x ∈ w.visited) := by
    rw [h.spans.live, h'.spans.live, followedBy, List.length_append, List.range_add, List.map_append,
      List.filter_append, List.append_right_eq_self, List.filter_eq_nil_iff]
    intro x hx hmem
    obtain ⟨k, hk, rfl⟩ := List.mem_map.mp hx
    obtain ⟨i, -, rfl⟩ := List.mem_map.mp hk
    have hlt := (h.visited_inside _ (of_decide_eq_true hmem)).2
    simp only [Int.ofNat_eq_natCast] at hlt
    omega
  have hedges := h'.edges_core r.ops.length
  rw [htwin.visited, htwin.edges, ← h.edges_core r.ops.length] at hedges
  unfold core at hedges ⊢
  rw [hops, hlive]
  exact congrArg (Graph.mk _ _ · 0) hedges.symm

end Routine.BuiltFrom

end FlowRecovery

import FlowRecovery.Proofs.Flow.Build

/-! Labels in a built graph. Control leaves a label in one way only, to the next position, and joining
the trailing code draws that edge where the walk did not, never twice. -/

namespace FlowRecovery

variable {r : Routine} {labels : LabelIndex} {t : Table} {v : Int} {op : Operation}

theorem Operation.localTarget?_of_isLabel (h : op.isLabel = true) (routine : Int) :
    op.localTarget? routine = none := by
  unfold isLabel label? at h
  unfold localTarget?
  split at h
  · next hlabel => rw [hlabel]
  · simp at h

/-- At most one edge leaves `v`, and it goes to the next position. -/
structure Graph.FallsOn (g : Graph) (v : Int) : Prop where
  few : (g.outs v).length ≤ 1
  next : ∀ e ∈ g.outs v, e.target = v + 1

namespace Graph.FallsOn

variable {g : Graph} {source target : Int} {a : Attrs}

theorem of_outs_eq_nil (h : g.outs v = []) : g.FallsOn v :=
  ⟨by simp [h], by simp [h]⟩

theorem link_of_ne (hs : source ∈ g.live) (ht : target ∈ g.live) (h : g.FallsOn v)
    (hne : source ≠ v) : (g.link source target a).FallsOn v := by
  have houts : (g.link source target a).outs v = g.outs v := by
    rw [outs_link hs ht, if_neg hne, List.append_nil]
  exact ⟨houts ▸ h.few, houts ▸ h.next⟩

/-- The edge behind `v` may be drawn if nothing leads to the next position. -/
theorem link_next (hs : target - 1 ∈ g.live) (ht : target ∈ g.live) (hins : g.inDegree target = 0)
    (h : g.FallsOn v) : (g.link (target - 1) target a).FallsOn v := by
  by_cases hv : target - 1 = v
  · have hnone : g.outs v = [] := by
      refine List.eq_nil_iff_forall_not_mem.mpr ?_
      intro e he
      have htarget : e.target = target := by
        rw [h.next e he]
        omega
      have hmem : e ∈ g.ins target := mem_ins.mpr ⟨(mem_outs.mp he).1, htarget⟩
      rw [List.length_eq_zero_iff.mp hins] at hmem
      exact List.not_mem_nil hmem
    have houts : (g.link (target - 1) target a).outs v =
        [⟨g.nextEdge, target - 1, target, a⟩] := by
      rw [outs_link hs ht, if_pos hv, hnone, List.nil_append]
    refine ⟨by simp [houts], ?_⟩
    intro e he
    rw [houts, List.mem_singleton] at he
    rw [he]
    simp only
    omega
  · exact h.link_of_ne hs ht hv

end Graph.FallsOn

theorem Walk.Finished.fallsOn {w : Walk} (h : Walk.Finished r labels t w) (hop : r.opAt? v = some op)
    (hlabel : op.isLabel = true) : w.graph.FallsOn v := by
  by_cases hv : v ∈ w.visited
  · obtain ⟨level, -, hss⟩ := h.successors hv
    obtain ⟨op', hop', hown⟩ := Routine.successors?_eq_ok hss
    obtain rfl : op' = op := Option.some.inj (hop'.symm.trans hop)
    obtain ⟨before, after, honward, hcases⟩ := Routine.successorsOf_eq_ok hown
    have hlocal := Operation.localTarget?_of_isLabel hlabel r.id
    rcases hcases with ⟨-, hdrawn⟩ | ⟨label, target, hsome, -⟩
    · rw [← hdrawn] at honward
      refine ⟨?_, ?_⟩
      · have hlen : (w.graph.outs v).length = (w.graph.drawn v).length := by simp [Graph.drawn]
        rcases honward with hnil | hone
        · simp [hlen, hnil]
        · simp [hlen, hone]
      · intro e he
        have hmem : (⟨e.attrs.level, e.target⟩ : Successor) ∈ w.graph.drawn v :=
          List.mem_map_of_mem he
        rcases honward with hnil | hone
        · simp [hnil] at hmem
        · rw [hone, List.mem_singleton] at hmem
          exact congrArg Successor.pos hmem
    · simp [hlocal] at hsome
  · exact .of_outs_eq_nil (h.outs_eq_nil fun hreached => hv (h.mem_visited.mpr hreached))

/-- No round draws a second edge behind a label. -/
theorem Tail.fallsOn_round {s s' : Tail} {pos : Int} (hop : r.opAt? v = some op)
    (hlabel : op.isLabel = true) (hs : s.graph.FallsOn v) (hins : s.graph.inDegree pos = 0)
    (hj : Joined r labels t pos s s') : s'.graph.FallsOn v := by
  cases hj with
  | behind hbefore hpos hside => exact hs.link_next hbefore hpos hins
  | @beside label target loop hbefore hpos hside hfind htarget =>
    have hne : pos ≠ v := by
      rintro rfl
      simp [sideLabel?, hop, Operation.localTarget?_of_isLabel hlabel] at hside
    refine (hs.link_next hbefore hpos hins).link_of_ne ?_ ?_ hne
    · simpa using hpos
    · simpa using htarget

theorem Routine.BuiltFrom.fallsOn {w : Walk} {g : Graph} {stats : BuildStats}
    (h : BuiltFrom r t labels w g stats) (hlabel : g.isLabel v = true) : g.FallsOn v := by
  rw [Graph.isLabel, h.spans.op?] at hlabel
  obtain ⟨op, hop, hown⟩ := (Option.any_eq_true _ _).mp hlabel
  rw [h.graph_eq]
  exact Tail.back_induction (P := fun s => s.graph.FallsOn v)
    (fun s s' pos hs _ hins hj => Tail.fallsOn_round hop hown hs hins hj) _
    (h.finished.fallsOn hop hown) h.noFault

end FlowRecovery

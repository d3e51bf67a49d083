import FlowRecovery.Flow.Tail
import FlowRecovery.Proofs.Flow.Successor
import FlowRecovery.Proofs.Graph.WellFormed

/-! What joining the trailing code does. Each round draws the edge from the position before an
operation that nothing leads to, and the edge to the label that the operation names if it can be
taken without jumping. Edges are only added, behind the ones that were there. -/

namespace FlowRecovery.Tail

variable {r : Routine} {labels : LabelIndex} {t : Table}

/-- One more edge. -/
def join (s : Tail) (source target : Int) (attrs : Attrs) : Tail :=
  { s with graph := s.graph.link source target attrs, added := s.added + 1 }

theorem draw_eq_join {s : Tail} {source target : Int} {attrs : Attrs}
    (h : (s.draw r source target attrs).fault = none) :
    source ∈ s.graph.live ∧ target ∈ s.graph.live ∧
      s.draw r source target attrs = s.join source target attrs := by
  cases hadd : s.graph.addEdge source target attrs with
  | error cause => simp [draw, hadd] at h
  | ok drawn =>
    obtain ⟨hs, ht, hgraph⟩ := Graph.addEdge_eq_ok hadd
    refine ⟨hs, ht, ?_⟩
    simp only [draw, hadd, join, hgraph]

/-- What a round at `pos` can do. -/
inductive Joined (r : Routine) (labels : LabelIndex) (t : Table) (pos : Int) (s : Tail) :
    Tail → Prop
  | behind (hbefore : pos - 1 ∈ s.graph.live) (hpos : pos ∈ s.graph.live)
      (hside : sideLabel? r t pos = none) : Joined r labels t pos s (s.join (pos - 1) pos {})
  | beside {label target : Int} {loop : Bool} (hbefore : pos - 1 ∈ s.graph.live)
      (hpos : pos ∈ s.graph.live) (hside : sideLabel? r t pos = some label)
      (hfind : labels.find? label = some target) (htarget : target ∈ s.graph.live)
      (hloop : loop = (decide (target < pos) &&
        decide (0 < (s.join (pos - 1) pos {}).graph.inDegree target))) :
      Joined r labels t pos s
        ((s.join (pos - 1) pos {}).join pos target { level := 1, loop })

theorem joined_of_attach {s : Tail} {pos : Int} (h : (s.attach r labels t pos).fault = none) :
    Joined r labels t pos s (s.attach r labels t pos) := by
  have hfirst : (s.draw r (pos - 1) pos {}).fault = none := by
    by_contra hne
    have hsome : (s.draw r (pos - 1) pos {}).fault.isSome := Option.isSome_iff_ne_none.mpr hne
    simp only [attach, hsome, if_true] at h
    exact hne h
  obtain ⟨hbefore, hpos, hdraw⟩ := draw_eq_join hfirst
  have hok : (s.join (pos - 1) pos {}).fault.isSome = false := by
    rw [← hdraw, hfirst]
    rfl
  simp only [attach, hdraw, hok, Bool.false_eq_true, if_false] at h ⊢
  cases hside : sideLabel? r t pos with
  | none => exact .behind hbefore hpos hside
  | some label =>
    cases hfind : labels.find? label with
    | none => simp [hside, Routine.labelPos, hfind] at h
    | some target =>
      simp only [hside, Routine.labelPos, hfind] at h ⊢
      obtain ⟨-, htarget, hsecond⟩ := draw_eq_join h
      rw [hsecond]
      refine .beside hbefore hpos hside hfind ?_ rfl
      simpa [join] using htarget

/-- The edges that a round draws, behind the ones that were there. -/
theorem Joined.edges_eq {s s' : Tail} {pos : Int} (hj : Joined r labels t pos s s') :
    ∃ rest, s'.graph.edges = s.graph.edges ++ ⟨s.graph.nextEdge, pos - 1, pos, {}⟩ :: rest ∧
      (sideLabel? r t pos = none ∧ rest = [] ∨
        ∃ label target loop, sideLabel? r t pos = some label ∧ labels.find? label = some target ∧
          rest = [⟨s.graph.nextEdge + 1, pos, target, { level := 1, loop }⟩]) := by
  cases hj with
  | behind hbefore hpos hside =>
    exact ⟨[], Graph.edges_link hbefore hpos _, Or.inl ⟨hside, rfl⟩⟩
  | @beside label target loop hbefore hpos hside hfind htarget =>
    have hedges := Graph.edges_link (g := s.graph.link (pos - 1) pos {}) (by simpa using hpos)
      (by simpa using htarget) { level := 1, loop }
    rw [Graph.edges_link hbefore hpos, Graph.nextEdge_link hbefore hpos, List.append_assoc] at hedges
    exact ⟨_, hedges, Or.inr ⟨label, target, loop, hside, hfind, rfl⟩⟩

/-- What every round at a position that nothing leads to keeps, joining keeps. -/
theorem back_induction {P : Tail → Prop}
    (hround : ∀ s s' (pos : Nat), P s → 2 ≤ pos → s.graph.inDegree pos = 0 →
      Joined r labels t pos s s' → P s')
    {s : Tail} (n : Nat) (hs : P s) (h : (back r labels t n s).fault = none) :
    P (back r labels t n s) := by
  fun_induction back r labels t n s with
  | case1 s => exact hs
  | case2 s => exact hs
  | case3 pos s hin => exact hs
  | case4 pos s hin s' hfault =>
    rw [h] at hfault
    simp at hfault
  | case5 pos s hin s' hfault ih =>
    have hok : s'.fault = none := Option.not_isSome_iff_eq_none.mp hfault
    exact ih (hround s s' (pos + 2) hs (by omega) (Nat.eq_zero_of_not_pos hin)
      (joined_of_attach hok)) h

/-- How joining ends: at a position that something leads to, or at the start; or with a position that
cannot be joined. What every round keeps, while it works back by one position, holds then. -/
theorem back_cases {P : Nat → Tail → Prop}
    (hround : ∀ s s' (pos : Nat), P (pos + 1) s → 2 ≤ pos → s.graph.inDegree pos = 0 →
      Joined r labels t pos s s' → P pos s')
    {s : Tail} (n : Nat) (hs : P (n + 1) s) :
    (∃ k : Nat, P k (back r labels t n s) ∧
        (k ≤ 2 ∨ 0 < (back r labels t n s).graph.inDegree (k - 1 : Nat))) ∨
      ∃ (pos : Nat) (s' : Tail), P (pos + 1) s' ∧ 2 ≤ pos ∧ s'.graph.inDegree pos = 0 ∧
        (s'.attach r labels t pos).fault.isSome = true ∧
        back r labels t n s = s'.attach r labels t pos := by
  fun_induction back r labels t n s with
  | case1 s => exact Or.inl ⟨1, hs, by omega⟩
  | case2 s => exact Or.inl ⟨2, hs, by omega⟩
  | case3 pos s hin => exact Or.inl ⟨pos + 3, hs, Or.inr hin⟩
  | case4 pos s hin s' hfault => exact Or.inr ⟨pos + 2, s, hs, by omega, by omega, hfault, rfl⟩
  | case5 pos s hin s' hfault ih =>
    have hj := joined_of_attach (Option.not_isSome_iff_eq_none.mp hfault)
    exact ih (hround s s' (pos + 2) hs (by omega) (by omega) hj)

/-- The graph of `s` is `g` with `s.added` edges drawn behind its own. -/
structure Extends (g : Graph) (s : Tail) : Prop where
  ops : s.graph.ops = g.ops
  live : s.graph.live = g.live
  wellFormed : s.graph.WellFormed
  nextEdge : s.graph.nextEdge = g.nextEdge + s.added
  edges : ∃ extra : List Edge, s.graph.edges = g.edges ++ extra ∧ extra.length = s.added ∧
    ∀ e ∈ extra, g.nextEdge ≤ e.id

namespace Extends

variable {g : Graph} {s : Tail}

theorem refl (hg : g.WellFormed) : Extends g { graph := g } :=
  ⟨rfl, rfl, hg, rfl, [], (List.append_nil _).symm, rfl, by simp⟩

theorem join (h : Extends g s) {source target : Int} (hs : source ∈ s.graph.live)
    (ht : target ∈ s.graph.live) (a : Attrs) : Extends g (s.join source target a) := by
  obtain ⟨extra, hedges, hlen, hids⟩ := h.edges
  refine ⟨?_, ?_, h.wellFormed.link _ _ _, ?_, extra ++ [⟨s.graph.nextEdge, source, target, a⟩], ?_,
    ?_, ?_⟩
  · exact (Graph.ops_link a).trans h.ops
  · exact (Graph.live_link a).trans h.live
  · simp only [Tail.join, Graph.nextEdge_link hs ht, h.nextEdge]
    omega
  · simp only [Tail.join, Graph.edges_link hs ht, hedges, List.append_assoc]
  · simp only [Tail.join, List.length_append, hlen, List.length_singleton]
  · intro e he
    rcases List.mem_append.mp he with he | he
    · exact hids e he
    · obtain rfl := List.mem_singleton.mp he
      exact h.nextEdge ▸ Nat.le_add_right _ _

theorem round (h : Extends g s) {pos : Int} {s' : Tail} (hj : Joined r labels t pos s s') :
    Extends g s' := by
  cases hj with
  | behind hbefore hpos hside => exact h.join hbefore hpos _
  | beside hbefore hpos hside hfind htarget =>
    refine (h.join hbefore hpos _).join ?_ ?_ _
    · simpa [Tail.join] using hpos
    · simpa [Tail.join] using htarget

end Extends

theorem extends_reconnect {g : Graph} (hg : g.WellFormed)
    (h : (reconnect g r labels t).fault = none) : Extends g (reconnect g r labels t) :=
  back_induction (P := Extends g) (fun _ _ _ hs _ _ hj => hs.round hj) _ (.refl hg) h

end FlowRecovery.Tail

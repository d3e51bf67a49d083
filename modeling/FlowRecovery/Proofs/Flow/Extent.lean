import FlowRecovery.Proofs.Flow.TailCycle
import Mathlib.Data.Finset.Max

/-! How far back trailing code is joined. A position is loose if control never comes to it and no operation
behind it goes to it. Joining takes in the loose positions at the end of the routine and stops at the last
position that is not loose. That is the last position that control comes to, unless the trailing code loops
within itself: then joining stops at a label of the trailing code that it has drawn an edge to, and no path
leads from the code in front into the trailing code. -/

namespace FlowRecovery

open FlowRecovery.Graph Relation

variable {r : Routine} {labels : LabelIndex} {t : Table} {w : Walk} {g : Graph} {stats : BuildStats}
  {s s' : Tail} {k : Nat} {p x : Int} {tail : List Edge}

/-- The ends of an edge and its level. -/
def Edge.course (e : Edge) : Int × Int × Int64 := (e.source, e.target, e.attrs.level)

namespace Routine

/-- Where the label stands that the operation at `p` goes to and that falling through does not reach. -/
def side? (r : Routine) (labels : LabelIndex) (t : Table) (p : Int) : Option Int :=
  (Tail.sideLabel? r t p).bind labels.find?

/-- The edges that join `p`: one from the position before, and one to the label at its side. -/
def joints (r : Routine) (labels : LabelIndex) (t : Table) (p : Int) : List (Int × Int × Int64) :=
  (p - 1, p, 0) :: ((r.side? labels t p).map fun q => (p, q, 1)).toList

theorem mem_joints {c : Int × Int × Int64} :
    c ∈ r.joints labels t p ↔
      c = (p - 1, p, 0) ∨ ∃ q, r.side? labels t p = some q ∧ c = (p, q, 1) := by
  simp only [joints, List.mem_cons, Option.mem_toList, Option.map_eq_some_iff]
  simp only [eq_comm]

theorem inside_of_sideLabel? {label : Int} (h : Tail.sideLabel? r t p = some label) :
    0 ≤ p ∧ p < r.ops.length := by
  obtain ⟨op, hop, -⟩ := Option.bind_eq_some_iff.mp h
  exact isSome_opAt?_iff.mp (Option.isSome_of_eq_some hop)

theorem inside_of_side? (h : r.side? labels t p = some x) : 0 ≤ p ∧ p < r.ops.length := by
  obtain ⟨label, hside, -⟩ := Option.bind_eq_some_iff.mp h
  exact inside_of_sideLabel? hside

/-- Nothing leads to `x`: control never comes to it, and no operation behind it goes to it. -/
structure Loose (r : Routine) (labels : LabelIndex) (t : Table) (x : Int) : Prop where
  unreached : ¬ r.Reached labels t x
  unnamed : ∀ y, x < y → r.side? labels t y ≠ some x

/-- Joining takes in `p`: from `p` on, all positions are loose. The first two are never joined. -/
structure Trails (r : Routine) (labels : LabelIndex) (t : Table) (p : Int) : Prop where
  two_le : 2 ≤ p
  inside : p < r.ops.length
  loose : ∀ x, p ≤ x → x < r.ops.length → r.Loose labels t x

/-- The edges `tail` join the positions from `k` on, from the last one back, and every label at a side has
been found. -/
structure JoinedFrom (r : Routine) (labels : LabelIndex) (t : Table) (k : Nat) (tail : List Edge) :
    Prop where
  le : k ≤ r.ops.length
  drawn : tail.map Edge.course =
    (List.range' k (r.ops.length - k)).reverse.flatMap fun p : Nat => r.joints labels t p
  plain : ∀ e ∈ tail, e.attrs.level = 0 → e.attrs.loop = false
  found : ∀ p label : Int, k ≤ p → Tail.sideLabel? r t p = some label →
    (labels.find? label).isSome = true

namespace JoinedFrom

theorem start : r.JoinedFrom labels t r.ops.length [] := by
  refine ⟨Nat.le_refl _, by simp, by simp, ?_⟩
  intro p label hp hside
  have hinside := inside_of_sideLabel? hside
  omega

theorem exists_of_mem (h : r.JoinedFrom labels t k tail) {e : Edge} (he : e ∈ tail) :
    ∃ p : Int, k ≤ p ∧ p < r.ops.length ∧ e.course ∈ r.joints labels t p := by
  have hmem : e.course ∈ tail.map Edge.course := List.mem_map_of_mem he
  rw [h.drawn, List.mem_flatMap] at hmem
  obtain ⟨p, hp, hcourse⟩ := hmem
  rw [List.mem_reverse, List.mem_range'_1] at hp
  exact ⟨p, by omega, by omega, hcourse⟩

theorem exists_mem (h : r.JoinedFrom labels t k tail) (hk : k ≤ p) (hp : p < r.ops.length)
    {c : Int × Int × Int64} (hc : c ∈ r.joints labels t p) : ∃ e ∈ tail, e.course = c := by
  have hmem : c ∈ tail.map Edge.course := by
    rw [h.drawn, List.mem_flatMap]
    refine ⟨p.toNat, ?_, ?_⟩
    · rw [List.mem_reverse, List.mem_range'_1]
      omega
    · rwa [Int.toNat_of_nonneg (by omega)]
  exact List.mem_map.mp hmem

theorem eq_length_of_nil (h : r.JoinedFrom labels t k []) : k = r.ops.length := by
  by_contra hne
  have hle := h.le
  obtain ⟨e, he, -⟩ := h.exists_mem (p := k) (by omega) (by omega) (mem_joints.mpr (Or.inl rfl))
  exact List.not_mem_nil he

/-- A round joins one more position. -/
theorem round {pos : Nat} (h : r.JoinedFrom labels t (pos + 1) tail)
    (hedges : s.graph.edges = w.graph.edges ++ tail) (hj : Tail.Joined r labels t pos s s') :
    ∃ tail', s'.graph.edges = w.graph.edges ++ tail' ∧ r.JoinedFrom labels t pos tail' := by
  obtain ⟨rest, hedges', hrest⟩ := hj.edges_eq
  have hle := h.le
  have hcourse : Edge.course ⟨s.graph.nextEdge, pos - 1, pos, {}⟩ :: rest.map Edge.course =
      r.joints labels t pos := by
    rcases hrest with ⟨hside, rfl⟩ | ⟨label, target, loop, hside, hfind, rfl⟩
    · simp [joints, side?, hside, Edge.course]
    · simp [joints, side?, hside, hfind, Edge.course]
  have hrange : List.range' pos (r.ops.length - pos) =
      pos :: List.range' (pos + 1) (r.ops.length - (pos + 1)) := by
    rw [show r.ops.length - pos = r.ops.length - (pos + 1) + 1 by omega, List.range'_succ]
  refine ⟨tail ++ ⟨s.graph.nextEdge, pos - 1, pos, {}⟩ :: rest, ?_, by omega, ?_, ?_, ?_⟩
  · rw [hedges', hedges, List.append_assoc]
  · rw [List.map_append, List.map_cons, hcourse, h.drawn, hrange]
    simp
  · intro e he hlevel
    rw [List.mem_append, List.mem_cons] at he
    rcases he with he | rfl | he
    · exact h.plain e he hlevel
    · rfl
    · rcases hrest with ⟨-, rfl⟩ | ⟨label, target, loop, -, -, rfl⟩
      · simp at he
      · rw [List.mem_singleton.mp he] at hlevel
        simp at hlevel
  · intro p label hp hside
    by_cases hpos : p = pos
    · subst hpos
      rcases hrest with ⟨hnone, -⟩ | ⟨label', target, loop, hsome, hfind, -⟩
      · simp [hnone] at hside
      · obtain rfl := Option.some.inj (hsome.symm.trans hside)
        simp [hfind]
    · exact h.found p label (by omega) hside

end JoinedFrom

end Routine

/-! ### Where joining stops -/

theorem Graph.inDegree_pos_iff : 0 < g.inDegree x ↔ ∃ e ∈ g.edges, e.target = x := by
  unfold inDegree
  rw [List.length_pos_iff_exists_mem]
  simp only [mem_ins]

theorem Walk.Finished.inDegree_pos_iff (hw : Walk.Finished r labels t w) (hx : x ≠ 0) :
    0 < w.graph.inDegree x ↔ r.Reached labels t x := by
  rw [← hw.mem_visited]
  constructor
  · intro hin
    by_contra hnot
    simp [inDegree, hw.inv.ins_eq_nil hnot] at hin
  · intro hv
    exact List.length_pos_iff.mpr (hw.ins_ne_nil hv hx)

namespace Tail

/-- Joining has worked back to `k`. -/
structure Extent (r : Routine) (labels : LabelIndex) (t : Table) (w : Walk) (k : Nat) (s : Tail) :
    Prop where
  noFault : s.fault = none
  spine : Spine w r.ops.length k s
  trails : ∀ p : Int, k ≤ p → p < r.ops.length → r.Trails labels t p
  edges : ∃ tail, s.graph.edges = w.graph.edges ++ tail ∧ r.JoinedFrom labels t k tail

namespace Extent

theorem le (h : Extent r labels t w k s) : k ≤ r.ops.length := by
  obtain ⟨tail, -, hjoined⟩ := h.edges
  exact hjoined.le

/-- Something leads to a position in front if the walk came to it or trailing code goes back to it. -/
theorem inDegree_pos_iff (h : Extent r labels t w k s) (hx : x < k) :
    0 < s.graph.inDegree x ↔
      0 < w.graph.inDegree x ∨ ∃ p : Int, k ≤ p ∧ r.side? labels t p = some x := by
  obtain ⟨tail, hedges, hjoined⟩ := h.edges
  rw [Graph.inDegree_pos_iff, Graph.inDegree_pos_iff, hedges]
  constructor
  · rintro ⟨e, he, rfl⟩
    rcases List.mem_append.mp he with he | he
    · exact Or.inl ⟨e, he, rfl⟩
    · obtain ⟨p, hk, -, hcourse⟩ := hjoined.exists_of_mem he
      rcases Routine.mem_joints.mp hcourse with heq | ⟨q, hside, heq⟩
      · simp only [Edge.course, Prod.mk.injEq] at heq
        omega
      · simp only [Edge.course, Prod.mk.injEq] at heq
        exact Or.inr ⟨p, hk, heq.2.1 ▸ hside⟩
  · rintro (⟨e, he, htarget⟩ | ⟨p, hk, hside⟩)
    · exact ⟨e, List.mem_append_left _ he, htarget⟩
    · obtain ⟨e, he, hcourse⟩ := hjoined.exists_mem hk (Routine.inside_of_side? hside).2
        (Routine.mem_joints.mpr (Or.inr ⟨x, hside, rfl⟩))
      exact ⟨e, List.mem_append_right _ he, congrArg (·.2.1) hcourse⟩

theorem two_le (h : Extent r labels t w k s) (hlt : k < r.ops.length) : 2 ≤ k := by
  have htrails := h.trails k (by omega) (by omega)
  exact Int.ofNat_le.mp htrails.two_le

section Finished

variable (hw : Walk.Finished r labels t w)

include hw

/-- The walk leads to no position that has been joined. -/
theorem inDegree_walk (h : Extent r labels t w k s) (hk : k ≤ p) (hp : p < r.ops.length) :
    w.graph.inDegree p = 0 := by
  have htrails := h.trails p hk hp
  have htwo := htrails.two_le
  by_contra hne
  have hreached := (hw.inDegree_pos_iff (x := p) (by omega)).mp (by omega)
  exact (htrails.loose p (Int.le_refl p) hp).unreached hreached

theorem loose_iff (h : Extent r labels t w k s) {pos : Nat} (hpos : 0 < pos) (hk : k = pos + 1) :
    s.graph.inDegree pos = 0 ↔ r.Loose labels t pos := by
  have hin := h.inDegree_pos_iff (x := pos) (by omega)
  rw [hw.inDegree_pos_iff (by omega)] at hin
  constructor
  · intro hzero
    refine ⟨fun hreached => ?_, fun y hy hside => ?_⟩
    · have := hin.mpr (Or.inl hreached)
      omega
    · have := hin.mpr (Or.inr ⟨y, by omega, hside⟩)
      omega
  · intro hloose
    by_contra hne
    rcases hin.mp (by omega) with hreached | ⟨y, hy, hside⟩
    · exact hloose.unreached hreached
    · exact hloose.unnamed y (by omega) hside

/-- A position that joining comes to and that nothing leads to is one that it takes in. -/
theorem trails_of_inDegree {pos : Nat} (h : Extent r labels t w (pos + 1) s) (hpos : 2 ≤ pos)
    (hin : s.graph.inDegree pos = 0) : r.Trails labels t pos := by
  have hle := h.le
  refine ⟨by omega, by omega, ?_⟩
  intro x hx hlt
  by_cases heq : x = pos
  · rw [heq]
    exact (h.loose_iff hw (by omega) rfl).mp hin
  · exact (h.trails x (by omega) hlt).loose x (Int.le_refl x) hlt

theorem start : Extent r labels t w r.ops.length { graph := w.graph } :=
  ⟨rfl, .start hw, fun p hp hlt => absurd hlt (by omega), [], (List.append_nil _).symm, .start⟩

theorem round {pos : Nat} (hindex : r.labelIndex = .ok labels) (h : Extent r labels t w (pos + 1) s)
    (hpos : 2 ≤ pos) (hin : s.graph.inDegree pos = 0) (hj : Joined r labels t pos s s') :
    Extent r labels t w pos s' := by
  obtain ⟨tail, hedges, hjoined⟩ := h.edges
  refine ⟨?_, h.spine.next hw hindex hpos hin hj, ?_, hjoined.round hedges hj⟩
  · cases hj <;> exact h.noFault
  · intro p hp hlt
    by_cases heq : p = pos
    · rw [heq]
      exact h.trails_of_inDegree hw hpos hin
    · exact h.trails p (by omega) hlt

/-- Joining takes in all trailing code up to a position that something leads to, or fails at a position
that it should take in. -/
theorem of_reconnect (hindex : r.labelIndex = .ok labels) (hlength : 0 < r.ops.length) :
    (∃ k, Extent r labels t w k (reconnect w.graph r labels t) ∧
        (k ≤ 2 ∨ 0 < (reconnect w.graph r labels t).graph.inDegree (k - 1 : Nat))) ∨
      ∃ (pos : Nat) (s : Tail), Extent r labels t w (pos + 1) s ∧ r.Trails labels t pos ∧
        (s.attach r labels t pos).fault.isSome = true ∧
        reconnect w.graph r labels t = s.attach r labels t pos := by
  have hstart : Extent r labels t w (r.ops.length - 1 + 1) { graph := w.graph } := by
    rw [Nat.sub_add_cancel hlength]
    exact start hw
  rcases back_cases (P := Extent r labels t w)
    (fun s s' pos hs hpos hin hj => hs.round hw hindex hpos hin hj) _ hstart with
    hend | ⟨pos, s, hs, hpos, hin, hfault, heq⟩
  · exact Or.inl hend
  · exact Or.inr ⟨pos, s, hs, hs.trails_of_inDegree hw hpos hin, hfault, heq⟩

theorem trails_iff (h : Extent r labels t w k s)
    (hstop : k ≤ 2 ∨ 0 < s.graph.inDegree (k - 1 : Nat)) :
    r.Trails labels t p ↔ k ≤ p ∧ p < r.ops.length := by
  refine ⟨fun htrails => ⟨?_, htrails.inside⟩, fun hp => h.trails p hp.1 hp.2⟩
  have htwo := htrails.two_le
  have hle := h.le
  by_contra hlt
  rcases hstop with hstop | hstop
  · omega
  · have hloose := htrails.loose (k - 1 : Nat) (by omega) (by omega)
    have hzero := (h.loose_iff hw (by omega) (by omega)).mpr hloose
    omega

end Finished

end Extent

end Tail

/-! ### Built graphs -/

namespace Routine

theorem BuiltFrom.exists_extent (h : BuiltFrom r t labels w g stats) :
    ∃ k, Tail.Extent r labels t w k (Tail.reconnect w.graph r labels t) ∧
      (k ≤ 2 ∨ 0 < (Tail.reconnect w.graph r labels t).graph.inDegree (k - 1 : Nat)) := by
  have hlength := (isSome_opAt?_iff.mp h.start).2
  rcases Tail.Extent.of_reconnect h.finished h.index_eq (by omega) with hend | ⟨pos, s, -, -, hfault, heq⟩
  · exact hend
  · rw [← heq, h.noFault] at hfault
    simp at hfault

/-- An empty routine is walked without a step. -/
theorem ofRoutine_of_ops_eq_nil (h : r.ops = []) :
    Walk.ofRoutine r labels t = .ok { graph := .ofOps [], visited := [0], stack := [] } := by
  simp [Walk.ofRoutine, Walk.enter, successors?, opAt?, h, Walk.fuel, Walk.run, Walk.step, bind, Except.bind]

/-- Joining draws, for each position from some `k` on, the edge from the position before and the edge to the
label at its side, and nothing else, and leaves the edges of the walk alone. The walk leads to none of these
positions. Joining has stopped at `k` because the first two positions are never joined, or because the walk or
one of its own edges leads to the position before `k`. -/
theorem build_joins_from (h : r.build t = .ok (g, stats)) :
    ∃ labels w, r.labelIndex = .ok labels ∧ Walk.ofRoutine r labels t = .ok w ∧
      ∃ (k : Nat) (tail : List Edge), r.JoinedFrom labels t k tail ∧
        g.edges = w.graph.edges ++ tail ∧ stats.tailEdges = tail.length ∧
        (tail = [] → k = r.ops.length) ∧ (k < r.ops.length → 2 ≤ k) ∧
        (∀ p : Int, k ≤ p → p < r.ops.length → w.graph.inDegree p = 0) ∧
        (3 ≤ r.ops.length → k = 2 ∨ 0 < w.graph.inDegree (k - 1 : Nat) ∨
          ∃ p : Int, k ≤ p ∧ r.side? labels t p = some (k - 1 : Nat)) := by
  rcases build_eq_ok h with ⟨hops, rfl, rfl⟩ | ⟨labels, w, hb⟩
  · have hstart : r.JoinedFrom {} t r.ops.length [] := .start
    rw [hops] at hstart ⊢
    refine ⟨{}, _, by rw [labelIndex, hops]; rfl, ofRoutine_of_ops_eq_nil hops, 0, [], hstart, rfl, rfl,
      fun _ => rfl, by simp, ?_, by simp⟩
    intro p hp hlt
    rfl
  · obtain ⟨k, hk, hstop⟩ := hb.exists_extent
    obtain ⟨tail, hedges, hjoined⟩ := hk.edges
    obtain ⟨extra, hextra, hlen, -⟩ := hb.tail_extends.edges
    obtain rfl := List.append_cancel_left (hextra.symm.trans hedges)
    refine ⟨labels, w, hb.index_eq, hb.walk_eq, k, extra, hjoined, hb.graph_eq ▸ hedges, ?_, ?_, hk.two_le,
      fun p hp hlt => hk.inDegree_walk hb.finished hp hlt, ?_⟩
    · rw [hb.stats_eq, hlen]
      rfl
    · rintro rfl
      exact hjoined.eq_length_of_nil
    · intro hthree
      have htwo := hk.two_le
      have hle := hk.le
      rcases hstop with hstop | hstop
      · exact Or.inl (by omega)
      · exact Or.inr ((hk.inDegree_pos_iff (by omega)).mp hstop)

theorem strayTail_joins_from :
    ∃ g stats labels w, strayTail.build .default = .ok (g, stats) ∧ strayTail.labelIndex = .ok labels ∧
      Walk.ofRoutine strayTail labels .default = .ok w ∧
      ∃ (k : Nat) (tail : List Edge), strayTail.JoinedFrom labels .default k tail ∧
        g.edges = w.graph.edges ++ tail ∧ stats.tailEdges = tail.length ∧
        (tail = [] → k = strayTail.ops.length) ∧ (k < strayTail.ops.length → 2 ≤ k) ∧
        (∀ p : Int, k ≤ p → p < strayTail.ops.length → w.graph.inDegree p = 0) ∧
        (3 ≤ strayTail.ops.length → k = 2 ∨ 0 < w.graph.inDegree (k - 1 : Nat) ∨
          ∃ p : Int, k ≤ p ∧ strayTail.side? labels .default p = some (k - 1 : Nat)) := by
  obtain ⟨labels, w, hjoins⟩ := build_joins_from (r := strayTail) (t := .default) rfl
  exact ⟨_, _, labels, w, rfl, hjoins⟩

/-! ### Ways into the trailing code -/

/-- The label at `x` stands behind `s`, and an operation further behind goes back to it. -/
structure LoopsBehind (r : Routine) (labels : LabelIndex) (t : Table) (s x : Int) : Prop where
  behind : s < x
  named : ∃ y, x < y ∧ r.side? labels t y = some x

section Extent

variable {s : Int} (h : BuiltFrom r t labels w g stats)
  (hk : Tail.Extent r labels t w k (Tail.reconnect w.graph r labels t))
  (hs : IsGreatest {p | p = 1 ∨ r.Reached labels t p} s)

include h hk

theorem BuiltFrom.path_of_le {p : Int} (hx : k - 1 ≤ x) (hxp : x ≤ p) (hp : p < r.ops.length) :
    ReflTransGen g.Step x p := by
  have hpath := h.plain_path_chain hk.spine hx (p - x).toNat (by omega)
  rw [show x + ((p - x).toNat : Int) = p by omega] at hpath
  exact ReflTransGen.mono (fun _ _ => PlainStep.step) _ _ hpath

include hs

/-- Where joining has stopped behind the code that control comes to, no edge leads on from there. -/
theorem BuiltFrom.le_of_path {p : Int} (hlt : s < (k : Int) - 1) (hpath : ReflTransGen g.Step s p) :
    p ≤ s := by
  induction hpath with
  | refl => exact Int.le_refl s
  | tail _ hstep ih =>
    obtain ⟨e, he, rfl, rfl⟩ := hstep
    rcases h.edge_cases hk.spine he with hwalk | honward | ⟨hreturns, -⟩
    · exact hs.2 (Or.inr (h.finished.mem_visited.mp (h.finished.inv.target_visited e hwalk)))
    · have := honward.source_ge
      omega
    · have := hreturns.source_ge
      omega

omit h hs in
theorem lt_of_loopsBehind (hloop : r.LoopsBehind labels t s x) : x < k := by
  obtain ⟨y, hy, hside⟩ := hloop.named
  have hinside := inside_of_side? hside
  by_contra hle
  exact ((hk.trails x (by omega) (by omega)).loose x (Int.le_refl x) (by omega)).unnamed y hy hside

/-- The last label of the trailing code that an operation behind it goes back to is where joining stops. -/
theorem BuiltFrom.isGreatest_stop
    (hstop : k ≤ 2 ∨ 0 < (Tail.reconnect w.graph r labels t).graph.inDegree (k - 1 : Nat)) :
    IsGreatest {x | x = s ∨ r.LoopsBehind labels t s x} (max s (k - 1)) := by
  have hone : 1 ≤ s := hs.2 (Or.inl rfl)
  refine ⟨?_, ?_⟩
  · by_cases hlt : s < (k : Int) - 1
    · refine Or.inr ?_
      rw [Int.max_eq_right (by omega)]
      rcases hstop with hstop | hstop
      · omega
      · rw [show ((k - 1 : Nat) : Int) = k - 1 by omega, hk.inDegree_pos_iff (by omega),
          h.finished.inDegree_pos_iff (by omega)] at hstop
        rcases hstop with hreached | ⟨y, hy, hside⟩
        · have := hs.2 (Or.inr hreached)
          omega
        · exact ⟨hlt, y, by omega, hside⟩
    · exact Or.inl (Int.max_eq_left (by omega))
  · rintro x (rfl | hloop)
    · exact Int.le_max_left _ _
    · have := lt_of_loopsBehind hk hloop
      omega

/-- Control comes from `s` to the code behind it unless that code loops. -/
theorem BuiltFrom.path_iff
    (hstop : k ≤ 2 ∨ 0 < (Tail.reconnect w.graph r labels t).graph.inDegree (k - 1 : Nat))
    {p : Int} (hp : s < p) (hlt : p < r.ops.length) :
    ReflTransGen g.Step s p ↔ ∀ x, ¬ r.LoopsBehind labels t s x := by
  constructor
  · intro hpath x hloop
    have hbehind := hloop.behind
    have hx := lt_of_loopsBehind hk hloop
    have := h.le_of_path hk hs (by omega) hpath
    omega
  · intro hnone
    rcases (h.isGreatest_stop hk hs hstop).1 with hmax | hloop
    · exact h.path_of_le hk (by omega) (by omega) hlt
    · exact absurd hloop (hnone _)

end Extent

/-- The last position that control comes to, or the second if that is further behind. -/
theorem exists_frontier (h : r.build t = .ok (g, stats)) (hindex : r.labelIndex = .ok labels) :
    ∃ s, IsGreatest {p | p = 1 ∨ r.Reached labels t p} s := by
  rcases build_eq_ok h with ⟨hops, -, -⟩ | ⟨labels', w, hb⟩
  · refine ⟨1, Or.inl rfl, ?_⟩
    rintro p (rfl | ⟨hstart, -⟩)
    · exact Int.le_refl 1
    · simp [opAt?, hops] at hstart
  · obtain rfl := Except.ok.inj (hindex.symm.trans hb.index_eq)
    have hgreatest := (insert 1 w.visited.toFinset).isGreatest_max' ⟨1, Finset.mem_insert_self _ _⟩
    refine ⟨_, ?_, fun p hp => hgreatest.2 ?_⟩
    · simpa [hb.finished.mem_visited] using hgreatest.1
    · simpa [hb.finished.mem_visited] using hp

/-- Let `s` be the last position that control comes to, or the second position if that is further behind. The
positions behind `s` are reached from `s` if and only if no operation behind `s` goes back to a label behind
`s`. In any case the positions behind the last such label, or behind `s` if there is none, are reached from
it. -/
theorem build_enters_trailing_code (h : r.build t = .ok (g, stats)) :
    ∃ labels s, r.labelIndex = .ok labels ∧ IsGreatest {p | p = 1 ∨ r.Reached labels t p} s ∧
      (∀ p, s < p → p < r.ops.length →
        (ReflTransGen g.Step s p ↔ ∀ x, ¬ r.LoopsBehind labels t s x)) ∧
      ∃ m, IsGreatest {x | x = s ∨ r.LoopsBehind labels t s x} m ∧
        ∀ p, m < p → p < r.ops.length → ReflTransGen g.Step m p := by
  rcases build_eq_ok h with ⟨hops, rfl, rfl⟩ | ⟨labels, w, hb⟩
  · have hindex : r.labelIndex = .ok {} := by
      rw [labelIndex, hops]
      rfl
    obtain ⟨s, hs⟩ := exists_frontier h hindex
    have hone : 1 ≤ s := hs.2 (Or.inl rfl)
    refine ⟨{}, s, hindex, hs, ?_, s, ⟨Or.inl rfl, ?_⟩, ?_⟩
    · intro p hp hlt
      simp only [hops, List.length_nil] at hlt
      omega
    · rintro x (rfl | ⟨-, y, -, hside⟩)
      · exact Int.le_refl x
      · have hinside := inside_of_side? hside
        simp only [hops, List.length_nil] at hinside
        omega
    · intro p hp hlt
      simp only [hops, List.length_nil] at hlt
      omega
  · obtain ⟨s, hs⟩ := exists_frontier h hb.index_eq
    obtain ⟨k, hk, hstop⟩ := hb.exists_extent
    refine ⟨labels, s, hb.index_eq, hs, fun p hp hlt => hb.path_iff hk hs hstop hp hlt, _,
      hb.isGreatest_stop hk hs hstop, ?_⟩
    intro p hp hlt
    exact hb.path_of_le hk (by omega) (by omega) hlt

/-- Code behind the end of the flow that loops. -/
def deadLoop : Routine :=
  { id := 1
    ops :=
      [.plain { code := { name := "Message" } }, .plain { code := { name := "Return" } }, .label 1,
        .labelJump { code := { name := "BranchValue" } } ⟨1, 1⟩] }

theorem deadLoop_enters_trailing_code :
    ∃ g stats labels s, deadLoop.build .default = .ok (g, stats) ∧ deadLoop.labelIndex = .ok labels ∧
      IsGreatest {p | p = 1 ∨ deadLoop.Reached labels .default p} s ∧
      (∀ p, s < p → p < deadLoop.ops.length →
        (ReflTransGen g.Step s p ↔ ∀ x, ¬ deadLoop.LoopsBehind labels .default s x)) ∧
      ∃ m, IsGreatest {x | x = s ∨ deadLoop.LoopsBehind labels .default s x} m ∧
        ∀ p, m < p → p < deadLoop.ops.length → ReflTransGen g.Step m p := by
  obtain ⟨labels, s, hindex, henters⟩ := build_enters_trailing_code (r := deadLoop) (t := .default) rfl
  exact ⟨_, _, labels, s, rfl, hindex, henters⟩

/-- Its label stands behind the last position that control comes to and is not reached from there. -/
theorem deadLoop_not_entered :
    ∃ g stats labels, deadLoop.build .default = .ok (g, stats) ∧ deadLoop.labelIndex = .ok labels ∧
      IsGreatest {p | p = 1 ∨ deadLoop.Reached labels .default p} 1 ∧
      ¬ ∀ p, 1 < p → p < deadLoop.ops.length → ReflTransGen g.Step 1 p := by
  have hwalk : ∀ labels w, Walk.ofRoutine deadLoop labels .default = .ok w → (∀ p ∈ w.visited, p ≤ 1) →
      IsGreatest {p | p = 1 ∨ deadLoop.Reached labels .default p} 1 := by
    intro labels w hw hle
    refine ⟨Or.inl rfl, ?_⟩
    rintro p (rfl | hreached)
    · exact Int.le_refl 1
    · exact hle p ((Walk.finished_of_ofRoutine rfl hw).mem_visited.mpr hreached)
  have hapart : ∀ g : Graph, (∀ e ∈ g.edges, e.target ∈ g.live) → g.reachable 1 2 = false →
      ¬ ∀ p, 1 < p → p < deadLoop.ops.length → ReflTransGen g.Step 1 p := by
    intro g hlive hreach hall
    have hpath := (reachable_iff hlive).mpr (hall 2 (by decide) (by decide))
    simp [hreach] at hpath
  exact ⟨_, _, _, rfl, rfl, hwalk _ _ rfl (by decide), hapart _ (by decide) (by decide)⟩

end Routine

end FlowRecovery

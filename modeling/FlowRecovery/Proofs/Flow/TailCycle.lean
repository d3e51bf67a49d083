import FlowRecovery.Proofs.Flow.Spine
import FlowRecovery.Proofs.Graph.Reachable

/-! The loop flags of a whole built graph. The walk flags an edge whose target leads to its source; joining
the trailing code flags an edge back to a label that something leads to already. The flags are right if and
only if these two tests agree on every edge that joining draws back. They disagree where a label has no edge
yet, although it leads to the trailing code, and where it has one and does not lead there. -/

namespace FlowRecovery

open FlowRecovery.Graph Relation

variable {r : Routine} {labels : LabelIndex} {t : Table} {w : Walk} {g : Graph} {stats : BuildStats}
  {k : Int}

/-- The flags say which edges close a cycle: every cycle has a flagged edge, and every flagged edge lies on
a cycle. -/
structure Graph.LoopsTrue (g : Graph) : Prop where
  flagged : ∀ v, ¬ TransGen g.PlainStep v v
  closes : ∀ e ∈ g.edges, e.attrs.loop = true → g.OnCycle e

namespace Routine.BuiltFrom

section Spine

variable (h : BuiltFrom r t labels w g stats)
  (hk : Tail.Spine w r.ops.length k (Tail.reconnect w.graph r labels t))

/-! ### Edges and paths -/

include h

theorem mem_edges_of_walk {e : Edge} (he : e ∈ w.graph.edges) : e ∈ g.edges := by
  obtain ⟨extra, hedges, -⟩ := h.tail_extends.edges
  rw [h.graph_eq, hedges]
  exact List.mem_append_left _ he

theorem plainStep_of_walk {x y : Int} (hstep : w.graph.PlainStep x y) : g.PlainStep x y := by
  obtain ⟨e, he, hplain, hs, ht⟩ := hstep
  exact ⟨e, h.mem_edges_of_walk he, hplain, hs, ht⟩

theorem nextEdge_le_of_not_walk {e : Edge} (he : e ∈ g.edges) (hnot : e ∉ w.graph.edges) :
    w.graph.nextEdge ≤ e.id := by
  obtain ⟨extra, hedges, -, hids⟩ := h.tail_extends.edges
  rw [h.graph_eq, hedges] at he
  exact hids e ((List.mem_append.mp he).resolve_left hnot)

theorem id_lt_of_walk {e f : Edge} (he : e ∈ g.edges) (hnot : e ∉ w.graph.edges)
    (hf : f ∈ w.graph.edges) : f.id < e.id :=
  Nat.lt_of_lt_of_le (h.finished.inv.wellFormed.ids_below f hf) (h.nextEdge_le_of_not_walk he hnot)

/-- A position that the walk comes to over an edge is one that it comes to from the start without a flag. -/
theorem plain_path_of_step {x y : Int} (hstep : w.graph.Step x y) : ReflTransGen g.PlainStep 0 y := by
  obtain ⟨e, he, -, rfl⟩ := hstep
  have hplain := (Walk.LoopInv.of_ofRoutine h.start h.walk_eq).plain _ (h.finished.inv.target_visited e he)
  exact ReflTransGen.mono (fun x y => h.plainStep_of_walk) _ _ hplain

include hk

theorem edge_cases {e : Edge} (he : e ∈ g.edges) :
    e ∈ w.graph.edges ∨ e.Onward k ∨ e.Returns k ∧ (e.attrs.loop = true ↔ g.EnteredBefore e) := by
  rw [h.graph_eq] at he ⊢
  exact hk.drawn e he

/-- Along the chain every position leads to every later one, over edges without a flag. -/
theorem plain_path_chain {x : Int} (hx : k - 1 ≤ x) (m : Nat) (hm : x + m < r.ops.length) :
    ReflTransGen g.PlainStep x (x + m) := by
  induction m with
  | zero => exact (Int.add_zero x).symm ▸ ReflTransGen.refl
  | succ m ih =>
    have hstep := hk.chain (x + m + 1) (by omega) (by omega)
    rw [Int.add_sub_cancel, ← h.graph_eq] at hstep
    exact (ih (by omega)).tail (by rwa [Int.natCast_succ, ← Int.add_assoc])

/-- The only way into the trailing code is over the position before it, along the edges of the walk. -/
theorem walk_path_of_path {x y : Int} (hpath : ReflTransGen g.Step x y) (hx : x < k) (hy : k ≤ y) :
    ReflTransGen w.graph.Step x (k - 1) := by
  induction hpath using ReflTransGen.head_induction_on with
  | refl => omega
  | head hstep _ ih =>
    obtain ⟨e, he, rfl, rfl⟩ := hstep
    rcases h.edge_cases hk he with hwalk | honward | ⟨hreturns, -⟩
    · have htarget := hk.apart _ (h.finished.inv.target_visited e hwalk)
      exact (ih htarget).head ⟨e, hwalk, rfl, rfl⟩
    · have hsource := honward.source_ge
      rw [show e.source = k - 1 by omega]
    · exact absurd hreturns.source_ge (by omega)

/-! ### Flags that are right -/

/-- Without edges back from the trailing code, a path along unflagged edges only goes on once it is in the
trailing code, and is one of the walk if it ends in front of it. -/
theorem path_without_returns {x y : Int}
    (hpath : TransGen (fun a b => ∃ e ∈ g.edges, e.attrs.loop = false ∧ e.source = a ∧ e.target = b ∧
      ¬ e.Returns k) x y) : (k ≤ x → x < y) ∧ (y < k → TransGen w.graph.PlainStep x y) := by
  induction hpath with
  | single hstep =>
    obtain ⟨e, he, hplain, rfl, rfl, hnot⟩ := hstep
    rcases h.edge_cases hk he with hwalk | honward | ⟨hreturns, -⟩
    · have hsource := hk.apart _ (h.finished.inv.source_visited e hwalk)
      exact ⟨fun hx => absurd hx (by omega), fun _ => .single ⟨e, hwalk, hplain, rfl, rfl⟩⟩
    · have htarget := honward.target_ge
      exact ⟨fun _ => honward.source_lt, fun hy => absurd hy (by omega)⟩
    · exact absurd hreturns hnot
  | tail _ hstep ih =>
    obtain ⟨e, he, hplain, rfl, rfl, hnot⟩ := hstep
    rcases h.edge_cases hk he with hwalk | honward | ⟨hreturns, -⟩
    · have hsource := hk.apart _ (h.finished.inv.source_visited e hwalk)
      refine ⟨fun hx => ?_, fun _ => (ih.2 hsource).tail ⟨e, hwalk, hplain, rfl, rfl⟩⟩
      have hlt := ih.1 hx
      omega
    · have htarget := honward.target_ge
      have hlt := honward.source_lt
      refine ⟨fun hx => ?_, fun hy => absurd hy (by omega)⟩
      have hon := ih.1 hx
      omega
    · exact absurd hreturns hnot

/-- If every edge back that closes a cycle is flagged, then every cycle has a flag. -/
theorem flagged_of_returns
    (hreturns : ∀ e ∈ g.edges, e.Returns k → ReflTransGen g.Step e.target e.source → e.attrs.loop = true)
    (v : Int) : ¬ TransGen g.PlainStep v v := by
  intro hcycle
  rcases transGen_or_exists (S := fun a b => ∃ e ∈ g.edges, e.attrs.loop = false ∧ e.source = a ∧
    e.target = b ∧ ¬ e.Returns k) hcycle with hpath | ⟨a, b, hva, ⟨e, he, hplain, rfl, rfl⟩, hnot, hbv⟩
  · obtain ⟨hon, hwalk⟩ := h.path_without_returns hk hpath
    by_cases hv : v < k
    · exact (Walk.LoopInv.of_ofRoutine h.start h.walk_eq).acyclic v (hwalk hv)
    · exact absurd (hon (by omega)) (Int.lt_irrefl v)
  · have hback : e.Returns k := by
      by_contra hne
      exact hnot ⟨e, he, hplain, rfl, rfl, hne⟩
    have hpath := ReflTransGen.mono (fun _ _ => PlainStep.step) _ _ (hbv.trans hva)
    rw [hreturns e he hback hpath] at hplain
    exact Bool.false_ne_true hplain.symm

/-- Nothing leads to the label of an edge back that closes a cycle and has no flag. So the label is the start
or the position before the trailing code, and leads there without a flag. -/
theorem plain_path_front {e : Edge} (he : e ∈ g.edges) (hback : e.Returns k)
    (hpath : ReflTransGen g.Step e.target e.source) (hlate : ¬ g.EnteredBefore e) :
    ReflTransGen g.PlainStep e.target (k - 1) := by
  have hnot : e ∉ w.graph.edges := by
    intro hwalk
    have hsource := hk.apart _ (h.finished.inv.source_visited e hwalk)
    exact absurd hback.source_ge (by omega)
  have hwalk := h.walk_path_of_path hk hpath hback.target_lt hback.source_ge
  rcases hwalk.cases_head with heq | ⟨q, ⟨f, hf, hsource, -⟩, -⟩
  · rw [heq]
  · have hzero : e.target = 0 := by
      by_contra hne
      obtain ⟨f', hf'⟩ := List.exists_mem_of_ne_nil _
        (h.finished.ins_ne_nil (hsource ▸ h.finished.inv.source_visited f hf) hne)
      obtain ⟨hf', hto⟩ := mem_ins.mp hf'
      exact hlate ⟨f', h.mem_edges_of_walk hf', h.id_lt_of_walk he hnot hf', hto⟩
    rcases hwalk.cases_tail with heq | ⟨c, -, hlast⟩
    · rw [heq]
    · exact hzero ▸ h.plain_path_of_step hlast

/-- If every cycle has a flag, then an edge back that closes a cycle has one. -/
theorem loop_of_returns (hflagged : ∀ v, ¬ TransGen g.PlainStep v v) {e : Edge} (he : e ∈ g.edges)
    (hback : e.Returns k) (hpath : ReflTransGen g.Step e.target e.source) : e.attrs.loop = true := by
  by_contra hplain
  have hlate : ¬ g.EnteredBefore e := by
    rcases h.edge_cases hk he with hwalk | honward | ⟨-, hflag⟩
    · have hsource := hk.apart _ (h.finished.inv.source_visited e hwalk)
      exact absurd hback.source_ge (by omega)
    · have htarget := honward.target_ge
      exact absurd hback.target_lt (by omega)
    · exact fun hearly => hplain (hflag.mpr hearly)
  have hfront := h.plain_path_front hk he hback hpath hlate
  have hlast : e.source < r.ops.length :=
    (isSome_opAt?_iff.mp (h.spans.mem_live.mp (h.wellFormed.source_live e he))).2
  have hsource := hback.source_ge
  have hchain := h.plain_path_chain hk (Int.le_refl (k - 1)) (e.source - (k - 1)).toNat (by omega)
  rw [show k - 1 + ((e.source - (k - 1)).toNat : Int) = e.source by omega] at hchain
  have hstep : g.PlainStep e.source e.target := ⟨e, he, by simpa using hplain, rfl, rfl⟩
  exact hflagged e.source (TransGen.head' hstep (hfront.trans hchain))

end Spine

/-- The flags of the edges that joining draws, by the edges that it found. -/
theorem loop_iff_of_tail (h : BuiltFrom r t labels w g stats) {e : Edge} (he : e ∈ g.edges)
    (hid : stats.edges - stats.tailEdges ≤ e.id) :
    e.attrs.loop = true ↔ e.target < e.source ∧ g.EnteredBefore e := by
  obtain ⟨k, hk⟩ := h.exists_spine
  rcases h.edge_cases hk he with hwalk | honward | ⟨hreturns, hflag⟩
  · have hbelow := h.finished.inv.wellFormed.ids_below e hwalk
    rw [h.nextEdge_walk] at hid
    omega
  · have hlt := honward.source_lt
    rw [honward.plain]
    exact ⟨fun hfalse => absurd hfalse Bool.false_ne_true, fun hboth => absurd hboth.1 (by omega)⟩
  · have hlt : e.target < e.source := by
      have hsource := hreturns.source_ge
      have htarget := hreturns.target_lt
      omega
    rw [hflag]
    exact (and_iff_right hlt).symm

/-- The flags of a built graph are right if and only if joining flags those of its edges back that close a
cycle. -/
theorem loopsTrue_iff (h : BuiltFrom r t labels w g stats) :
    g.LoopsTrue ↔ ∀ e ∈ g.edges, stats.edges - stats.tailEdges ≤ e.id → e.target < e.source →
      (e.attrs.loop = true ↔ ReflTransGen g.Step e.target e.source) := by
  obtain ⟨k, hk⟩ := h.exists_spine
  have hreturns : ∀ e ∈ g.edges, stats.edges - stats.tailEdges ≤ e.id → e.target < e.source →
      e.Returns k := by
    intro e he hid hlt
    rcases h.edge_cases hk he with hwalk | honward | ⟨hback, -⟩
    · have hbelow := h.finished.inv.wellFormed.ids_below e hwalk
      rw [h.nextEdge_walk] at hid
      omega
    · have hon := honward.source_lt
      omega
    · exact hback
  constructor
  · intro htrue e he hid hlt
    exact ⟨fun hloop => (htrue.closes e he hloop).2,
      fun hpath => h.loop_of_returns hk htrue.flagged he (hreturns e he hid hlt) hpath⟩
  · intro hiff
    have htail : ∀ e ∈ g.edges, e ∉ w.graph.edges → stats.edges - stats.tailEdges ≤ e.id := by
      intro e he hnot
      rw [h.nextEdge_walk]
      exact h.nextEdge_le_of_not_walk he hnot
    refine ⟨h.flagged_of_returns hk ?_, ?_⟩
    · intro e he hback hpath
      have hsource := hback.source_ge
      have htarget := hback.target_lt
      have hnot : e ∉ w.graph.edges := by
        intro hwalk
        have hvisited := hk.apart _ (h.finished.inv.source_visited e hwalk)
        omega
      exact (hiff e he (htail e he hnot) (by omega)).mpr hpath
    · intro e he hloop
      refine ⟨he, ?_⟩
      by_cases hwalk : e ∈ w.graph.edges
      · have hcloses := (Walk.LoopInv.of_ofRoutine h.start h.walk_eq).closes e hwalk hloop
        refine ReflTransGen.mono ?_ _ _ hcloses
        rintro x y ⟨f, hf, hs, ht⟩
        exact ⟨f, h.mem_edges_of_walk hf, hs, ht⟩
      · have hid := htail e he hwalk
        exact (hiff e he hid ((h.loop_iff_of_tail he hid).mp hloop).1).mp hloop

end Routine.BuiltFrom

namespace Routine

/-- An edge that joining draws is flagged if it leads back to a position that an edge drawn earlier leads to.
The flags of the whole graph are right if and only if this test agrees on every edge back with the test
whether the target leads to the source. -/
theorem build_loopsTrue_iff (h : r.build t = .ok (g, stats)) :
    (∀ e ∈ g.edges, stats.edges - stats.tailEdges ≤ e.id →
      (e.attrs.loop = true ↔ e.target < e.source ∧ g.EnteredBefore e)) ∧
    (g.LoopsTrue ↔ ∀ e ∈ g.edges, stats.edges - stats.tailEdges ≤ e.id → e.target < e.source →
      (g.EnteredBefore e ↔ ReflTransGen g.Step e.target e.source)) := by
  rcases build_eq_ok h with ⟨-, rfl, rfl⟩ | ⟨labels, w, hb⟩
  · refine ⟨fun e he => absurd he List.not_mem_nil, ?_⟩
    refine ⟨fun _ e he => absurd he List.not_mem_nil, fun _ => ⟨?_, fun e he => absurd he List.not_mem_nil⟩⟩
    intro v hcycle
    obtain ⟨u, ⟨e, he, -⟩, -⟩ := TransGen.head'_iff.mp hcycle
    exact absurd he List.not_mem_nil
  · refine ⟨fun e he hid => hb.loop_iff_of_tail he hid, hb.loopsTrue_iff.trans ?_⟩
    refine forall₂_congr fun e he => forall₂_congr fun hid hlt => ?_
    rw [hb.loop_iff_of_tail he hid, and_iff_right hlt]

/-- Trailing code that loops within itself and then branches into an arm that has ended. -/
def strayTail : Routine :=
  { id := 1
    ops :=
      [.labelJump { code := { name := "BranchValue" } } ⟨1, 2⟩, .label 1,
        .plain { code := { name := "Return" } }, .label 2, .plain { code := { name := "Return" } },
        .label 3, .labelJump { code := { name := "BranchValue" } } ⟨1, 3⟩,
        .labelJump { code := { name := "BranchValue" } } ⟨1, 1⟩] }

theorem strayTail_loopsTrue_iff :
    ∃ g stats, strayTail.build .default = .ok (g, stats) ∧
      (∀ e ∈ g.edges, stats.edges - stats.tailEdges ≤ e.id →
        (e.attrs.loop = true ↔ e.target < e.source ∧ g.EnteredBefore e)) ∧
      (g.LoopsTrue ↔ ∀ e ∈ g.edges, stats.edges - stats.tailEdges ≤ e.id → e.target < e.source →
        (g.EnteredBefore e ↔ ReflTransGen g.Step e.target e.source)) :=
  ⟨_, _, rfl, build_loopsTrue_iff (r := strayTail) (t := .default) rfl⟩

/-- Its loop has no flag, and a flag stands on the branch into the arm, which closes no cycle. -/
theorem strayTail_not_loopsTrue :
    ∃ g stats, strayTail.build .default = .ok (g, stats) ∧ ¬ g.LoopsTrue ∧ TransGen g.PlainStep 5 5 ∧
      ∃ e ∈ g.edges, e.attrs.loop = true ∧ ¬ g.OnCycle e := by
  have hloop : ∀ g : Graph, g.PlainStep 5 6 → g.PlainStep 6 5 →
      ¬ g.LoopsTrue ∧ TransGen g.PlainStep 5 5 := fun g hon hback =>
    have hcycle := (TransGen.single hon).tail hback
    ⟨fun htrue => htrue.flagged 5 hcycle, hcycle⟩
  have hstray : ∀ g : Graph, (∀ e ∈ g.edges, e.target ∈ g.live) → g.reachable 1 7 = false →
      ∀ e : Edge, e.source = 7 → e.target = 1 → ¬ g.OnCycle e := by
    rintro g hlive hreach e hs ht ⟨-, hpath⟩
    rw [hs, ht, ← reachable_iff hlive, hreach] at hpath
    exact Bool.false_ne_true hpath
  refine ⟨_, _, rfl, (hloop _ ?_ ?_).1, (hloop _ ?_ ?_).2, ⟨5, 7, 1, { level := 1, loop := true }⟩, by decide,
    rfl, hstray _ (by decide) (by decide) _ rfl rfl⟩
  all_goals
    unfold PlainStep
    decide

end Routine

end FlowRecovery

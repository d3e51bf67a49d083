import FlowRecovery.Proofs.Flow.Cycle
import FlowRecovery.Proofs.Flow.Entry
import FlowRecovery.Proofs.Flow.Trailing

/-! How trailing code hangs together. Joining works back from the end, position by position, so the
operations from some position on are a chain in which each follows the one before it. A label that one of
them goes to stands further behind, or in front of the chain: joining stops at a position that something
leads to, so it never gets past a label that it has drawn an edge to. An edge to a label in front is flagged
if and only if an edge drawn earlier leads to the label. -/

namespace FlowRecovery

open FlowRecovery.Graph Relation

variable {r : Routine} {labels : LabelIndex} {t : Table} {w : Walk} {k n : Int} {s s' : Tail}

/-- An edge along the trailing code that starts at `k`, or into it from the position before. -/
structure Edge.Onward (k : Int) (e : Edge) : Prop where
  source_ge : k - 1 ≤ e.source
  target_ge : k ≤ e.target
  source_lt : e.source < e.target
  plain : e.attrs.loop = false

theorem Edge.onward_next (id : Nat) (pos : Int) : Edge.Onward pos ⟨id, pos - 1, pos, {}⟩ :=
  ⟨Int.le_refl _, Int.le_refl _, Int.sub_lt_self pos Int.one_pos, rfl⟩

/-- An edge from the trailing code that starts at `k` to what stands in front of it. -/
structure Edge.Returns (k : Int) (e : Edge) : Prop where
  source_ge : k ≤ e.source
  target_lt : e.target < k

/-- An edge drawn earlier leads to the target of `e`. -/
def Graph.EnteredBefore (g : Graph) (e : Edge) : Prop := ∃ f ∈ g.edges, f.id < e.id ∧ f.target = e.target

/-- The edge that is drawn last was preceded by those that lead to its target so far. -/
theorem Graph.enteredBefore_link {g : Graph} {source target : Int} {a : Attrs} (hg : g.WellFormed)
    (hs : source ∈ g.live) (ht : target ∈ g.live) :
    (g.link source target a).EnteredBefore ⟨g.nextEdge, source, target, a⟩ ↔ 0 < g.inDegree target := by
  unfold EnteredBefore inDegree
  rw [edges_link hs ht, List.length_pos_iff_exists_mem]
  constructor
  · rintro ⟨f, hf, hid, hto⟩
    rcases List.mem_append.mp hf with hf | hf
    · exact ⟨f, mem_ins.mpr ⟨hf, hto⟩⟩
    · rw [List.mem_singleton.mp hf] at hid
      exact absurd hid (Nat.lt_irrefl _)
  · rintro ⟨f, hf⟩
    obtain ⟨hf, hto⟩ := mem_ins.mp hf
    exact ⟨f, List.mem_append_left _ hf, hg.ids_below f hf, hto⟩

namespace Tail

/-- What every round keeps, while it works back by one position, joining keeps. -/
theorem back_induction_down {P : Nat → Tail → Prop}
    (hround : ∀ s s' (pos : Nat), P (pos + 1) s → 2 ≤ pos → s.graph.inDegree pos = 0 →
      Joined r labels t pos s s' → P pos s')
    (n : Nat) (hs : P (n + 1) s) (h : (back r labels t n s).fault = none) :
    ∃ k, P k (back r labels t n s) := by
  rcases back_cases hround n hs with ⟨k, hk, -⟩ | ⟨pos, s', -, -, -, hfault, heq⟩
  · exact ⟨k, hk⟩
  · rw [← heq, h] at hfault
    simp at hfault

/-- The operations from `k` on, up to `n`, have been joined to the graph of the walk: none of them was
reached, each follows the one before it, and all other edges lead along them or out of them. -/
structure Spine (w : Walk) (n k : Int) (s : Tail) : Prop where
  extended : Extends w.graph s
  apart : ∀ p ∈ w.visited, p < k
  chain : ∀ p, k ≤ p → p < n → s.graph.PlainStep (p - 1) p
  drawn : ∀ e ∈ s.graph.edges, e ∈ w.graph.edges ∨ e.Onward k ∨
    e.Returns k ∧ (e.attrs.loop = true ↔ s.graph.EnteredBefore e)

/-- The side label of an operation stands elsewhere. -/
theorem target_ne_of_sideLabel? {pos label target : Int} (hindex : r.labelIndex = .ok labels)
    (hside : sideLabel? r t pos = some label) (hfind : labels.find? label = some target) :
    target ≠ pos := by
  rintro rfl
  obtain ⟨op, hop, hown⟩ := Option.bind_eq_some_iff.mp hside
  have hlabel := Routine.isLabel_of_find? hindex hfind
  rw [hop, Option.any_some] at hlabel
  split_ifs at hown
  rw [Operation.localTarget?_of_isLabel hlabel] at hown
  simp at hown

/-- The edges that a round draws behind the ones that were there. -/
theorem Joined.drawn {pos : Int} (hindex : r.labelIndex = .ok labels) (hg : s.graph.WellFormed)
    (hj : Joined r labels t pos s s') :
    ∃ rest, s'.graph.edges = s.graph.edges ++ rest ∧ (∀ f ∈ rest, s.graph.nextEdge ≤ f.id) ∧
      s'.graph.PlainStep (pos - 1) pos ∧
      ∀ f ∈ rest, f.Onward pos ∨
        f.Returns pos ∧ (f.attrs.loop = true ↔ s'.graph.EnteredBefore f) := by
  cases hj with
  | behind hbefore hpos hside =>
    have hedges := edges_link hbefore hpos {}
    refine ⟨_, hedges, by simp, (plainStep_link hbefore hpos _ _).mpr (Or.inr ⟨rfl, rfl, rfl⟩), ?_⟩
    intro f hf
    obtain rfl := List.mem_singleton.mp hf
    exact Or.inl (Edge.onward_next _ pos)
  | @beside label target loop hbefore hpos hside hfind htarget hloop =>
    have hne := target_ne_of_sideLabel? hindex hside hfind
    have hlive : pos ∈ (s.graph.link (pos - 1) pos {}).live := by simpa using hpos
    have hlive' : target ∈ (s.graph.link (pos - 1) pos {}).live := by simpa using htarget
    have hfirst : (s.graph.link (pos - 1) pos {}).PlainStep (pos - 1) pos :=
      (plainStep_link hbefore hpos _ _).mpr (Or.inr ⟨rfl, rfl, rfl⟩)
    have hedges := edges_link hlive hlive' { level := 1, loop }
    rw [edges_link hbefore hpos, List.append_assoc] at hedges
    refine ⟨_, hedges, by simp [nextEdge_link hbefore hpos],
      (plainStep_link hlive hlive' _ _).mpr (Or.inl hfirst), ?_⟩
    intro f hf
    rw [List.singleton_append, List.mem_cons, List.mem_singleton] at hf
    rcases hf with rfl | rfl
    · exact Or.inl (Edge.onward_next _ pos)
    · by_cases hlt : target < pos
      · refine Or.inr ⟨⟨Int.le_refl _, hlt⟩, ?_⟩
        refine Iff.trans ?_ (enteredBefore_link (hg.link (pos - 1) pos {}) hlive hlive').symm
        rw [hloop, decide_eq_true hlt, Bool.true_and, decide_eq_true_iff]
        rfl
      · refine Or.inl ⟨?_, ?_, ?_, by simp [hlt, hloop]⟩ <;> simp only <;> omega

/-- A round makes the chain longer by its own position. -/
theorem Spine.round {pos : Int} (hindex : r.labelIndex = .ok labels) (h : Spine w n (pos + 1) s)
    (hnew : pos ∉ w.visited) (hin : s.graph.inDegree pos = 0) (hj : Joined r labels t pos s s') :
    Spine w n pos s' := by
  obtain ⟨rest, hedges, hids, hstep, hrest⟩ := hj.drawn hindex h.extended.wellFormed
  have hold : ∀ e ∈ s.graph.edges, e ∈ s'.graph.edges := fun e he => hedges ▸ List.mem_append_left _ he
  refine ⟨h.extended.round hj, ?_, ?_, ?_⟩
  · intro p hp
    have hlt := h.apart p hp
    have hne : p ≠ pos := fun heq => hnew (heq ▸ hp)
    omega
  · intro p hp hpn
    by_cases hpos : p = pos
    · exact hpos ▸ hstep
    · obtain ⟨e, he, hplain, hs, ht⟩ := h.chain p (by omega) hpn
      exact ⟨e, hold e he, hplain, hs, ht⟩
  · intro e he
    rcases List.mem_append.mp (hedges ▸ he) with he | he
    · rcases h.drawn e he with hwalk | honward | ⟨hreturns, hflag⟩
      · exact Or.inl hwalk
      · have h₁ := honward.source_ge
        have h₂ := honward.target_ge
        exact Or.inr (Or.inl ⟨by omega, by omega, honward.source_lt, honward.plain⟩)
      · -- nothing leads to `pos`, so the edge leads further back
        have hne : e.target ≠ pos := by
          intro heq
          have hmem : e ∈ s.graph.ins pos := mem_ins.mpr ⟨he, heq⟩
          rw [List.length_eq_zero_iff.mp hin] at hmem
          exact List.not_mem_nil hmem
        have h₁ := hreturns.source_ge
        have h₂ := hreturns.target_lt
        refine Or.inr (Or.inr ⟨⟨by omega, by omega⟩, hflag.trans ⟨?_, ?_⟩⟩)
        · rintro ⟨f, hf, hid, hto⟩
          exact ⟨f, hold f hf, hid, hto⟩
        · rintro ⟨f, hf, hid, hto⟩
          rcases List.mem_append.mp (hedges ▸ hf) with hf | hf
          · exact ⟨f, hf, hid, hto⟩
          · have hbelow := h.extended.wellFormed.ids_below e he
            have habove := hids f hf
            omega
    · exact Or.inr (hrest e he)

section Finished

variable (hw : Walk.Finished r labels t w)

include hw

/-- At first the chain is empty. -/
theorem Spine.start : Spine w r.ops.length r.ops.length { graph := w.graph } := by
  refine ⟨.refl hw.inv.wellFormed, ?_, ?_, fun e he => Or.inl he⟩
  · intro p hp
    exact (Routine.isSome_opAt?_iff.mp (hw.inv.spans.mem_live.mp (hw.inv.visited_live p hp))).2
  · intro p hp hpn
    omega

theorem Spine.next {pos : Nat} (hindex : r.labelIndex = .ok labels) (h : Spine w n (pos + 1 : Nat) s)
    (hpos : 2 ≤ pos) (hin : s.graph.inDegree pos = 0) (hj : Joined r labels t pos s s') :
    Spine w n pos s' :=
  Spine.round hindex (by exact_mod_cast h) (unreached_of_inDegree hw h.extended (by omega) hin) hin hj

end Finished

end Tail

/-- In a built graph the trailing code is a chain from some position on. -/
theorem Routine.BuiltFrom.exists_spine {g : Graph} {stats : BuildStats}
    (h : BuiltFrom r t labels w g stats) :
    ∃ k : Nat, Tail.Spine w r.ops.length k (Tail.reconnect w.graph r labels t) := by
  have hlength : 0 < r.ops.length := by
    have hstart := (isSome_opAt?_iff.mp h.start).2
    omega
  refine Tail.back_induction_down (P := fun k s => Tail.Spine w r.ops.length k s) ?_ (r.ops.length - 1) ?_
    h.noFault
  · intro s s' pos hs hpos hin hj
    exact hs.next h.finished h.index_eq hpos hin hj
  · rw [Nat.sub_add_cancel hlength]
    exact Tail.Spine.start h.finished

end FlowRecovery

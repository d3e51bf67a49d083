import FlowRecovery.Proofs.Flow.Tail
import FlowRecovery.Proofs.Flow.Walk

/-! A built graph and the walk behind it. A build that succeeds has an index of labels, a walk that
came to its end, and the trailing code joined to the walk's graph; the edges of the walk are those
with the lowest numbers. The walk has drawn the successors of the positions that control can come
to, and nothing else. -/

namespace FlowRecovery

open Relation

variable {r : Routine} {labels : LabelIndex} {t : Table} {g : Graph} {stats : BuildStats}

/-- The graph without the edges of the trailing code. -/
def Graph.beforeTail (g : Graph) (stats : BuildStats) : Graph :=
  { g with edges := g.edges.filter (·.id < stats.edges - stats.tailEdges) }

/-- A walk that came to its end. -/
structure Walk.Finished (r : Routine) (labels : LabelIndex) (t : Table) (w : Walk) : Prop where
  inv : Walk.Inv r labels t w
  stack : w.stack = []

namespace Walk

theorem finished_of_ofRoutine {w : Walk} (hpos : (r.opAt? 0).isSome)
    (h : ofRoutine r labels t = .ok w) : Finished r labels t w := by
  cases hframe : enter r labels t 0 0 with
  | error f => simp [ofRoutine, hframe, bind, Except.bind] at h
  | ok frame =>
    simp only [ofRoutine, hframe, bind, Except.bind] at h
    have hstart := Inv.start_of_enter hpos hframe
    refine ⟨run_induction (fun _ _ hw hnext => hw.next hnext) hstart h, ?_⟩
    refine stack_eq_nil_of_run hstart ?_ h
    have hshort := hstart.frame_short frame (List.mem_singleton_self _)
    have hlen := hstart.length_visited_le
    simp only [remaining, List.flatMap_cons, List.flatMap_nil, List.append_nil,
      List.length_singleton, fuel] at hlen ⊢
    omega

namespace Finished

variable {w : Walk}

theorem successors (h : Finished r labels t w) {p : Int} (hp : p ∈ w.visited) :
    ∃ level, w.graph.EntryLevel p level ∧
      r.successors? labels t p level = some (.ok (w.graph.drawn p)) := by
  obtain ⟨level, hlevel, hss⟩ := h.inv.progress p hp
  rw [h.stack, waiting, List.flatMap_nil, List.append_nil] at hss
  exact ⟨level, hlevel, hss⟩

/-- The walk enters the positions that control can come to. -/
theorem mem_visited (h : Finished r labels t w) {p : Int} :
    p ∈ w.visited ↔ r.Reached labels t p := by
  refine ⟨h.inv.reached p, ?_⟩
  rintro ⟨-, hpath⟩
  induction hpath with
  | refl => exact h.inv.start
  | @tail q p _ hleads ih =>
    obtain ⟨level, -, hss⟩ := h.successors ih
    obtain ⟨s, hs, rfl⟩ := (Routine.leads_iff hss).mp hleads
    obtain ⟨e, he, rfl⟩ := List.mem_map.mp hs
    exact h.inv.target_visited e (Graph.mem_outs.mp he).1

theorem outs_eq_nil (h : Finished r labels t w) {p : Int} (hp : ¬ r.Reached labels t p) :
    w.graph.outs p = [] := by
  refine List.filter_eq_nil_iff.mpr ?_
  intro e he hsource
  exact hp (h.mem_visited.mp ((of_decide_eq_true hsource) ▸ h.inv.source_visited e he))

end Finished

end Walk

namespace Routine

/-- What a build that succeeds is made of. -/
structure BuiltFrom (r : Routine) (t : Table) (labels : LabelIndex) (w : Walk) (g : Graph)
    (stats : BuildStats) : Prop where
  index_eq : r.labelIndex = .ok labels
  start : (r.opAt? 0).isSome
  walk_eq : Walk.ofRoutine r labels t = .ok w
  noFault : (Tail.reconnect w.graph r labels t).fault = none
  graph_eq : g = (Tail.reconnect w.graph r labels t).graph
  stats_eq : stats = .ofTail r (Tail.reconnect w.graph r labels t)

theorem build_eq_ok (h : r.build t = .ok (g, stats)) :
    r.ops = [] ∧ g = .ofOps [] ∧ stats = {} ∨
      ∃ labels w, BuiltFrom r t labels w g stats := by
  unfold build at h
  split_ifs at h with hempty
  · obtain ⟨rfl, rfl⟩ := Prod.mk.inj (Except.ok.inj h)
    exact Or.inl ⟨List.isEmpty_iff.mp hempty, rfl, rfl⟩
  · refine Or.inr ?_
    cases hlabels : r.labelIndex with
    | error f => simp [hlabels, bind, Except.bind] at h
    | ok labels =>
      cases hwalk : Walk.ofRoutine r labels t with
      | error f => simp [hlabels, hwalk, bind, Except.bind] at h
      | ok w =>
        simp only [hlabels, hwalk, bind, Except.bind] at h
        cases hfault : (Tail.reconnect w.graph r labels t).fault with
        | some f => simp [hfault] at h
        | none =>
          simp only [hfault] at h
          obtain ⟨rfl, rfl⟩ := Prod.mk.inj (Except.ok.inj h)
          refine ⟨labels, w, hlabels, ?_, hwalk, hfault, rfl, rfl⟩
          obtain ⟨op, rest, hops⟩ := List.exists_cons_of_ne_nil (List.isEmpty_eq_false_iff.mp
            (Bool.eq_false_iff.mpr hempty))
          simp [opAt?, hops]

namespace BuiltFrom

variable {w : Walk}

theorem finished (h : BuiltFrom r t labels w g stats) : Walk.Finished r labels t w :=
  Walk.finished_of_ofRoutine h.start h.walk_eq

theorem tail_extends (h : BuiltFrom r t labels w g stats) :
    Tail.Extends w.graph (Tail.reconnect w.graph r labels t) :=
  Tail.extends_reconnect h.finished.inv.wellFormed h.noFault

theorem wellFormed (h : BuiltFrom r t labels w g stats) : g.WellFormed :=
  h.graph_eq ▸ h.tail_extends.wellFormed

theorem spans (h : BuiltFrom r t labels w g stats) : g.Spans r := by
  have hspans := h.finished.inv.spans
  exact ⟨by rw [h.graph_eq, h.tail_extends.ops, hspans.ops],
    by rw [h.graph_eq, h.tail_extends.live, hspans.live]⟩

theorem nextEdge_walk (h : BuiltFrom r t labels w g stats) :
    stats.edges - stats.tailEdges = w.graph.nextEdge := by
  obtain ⟨extra, hedges, hlen, -⟩ := h.tail_extends.edges
  have hwalk : w.graph.edges.length = w.graph.nextEdge := by
    have hids := congrArg List.length h.finished.inv.ids
    rwa [List.length_map, List.length_range] at hids
  rw [h.stats_eq]
  simp only [BuildStats.ofTail, Graph.edgeCount, hedges, List.length_append, hlen, hwalk]
  omega

/-- The edges with the lowest numbers are those of the walk. -/
theorem edges_beforeTail (h : BuiltFrom r t labels w g stats) :
    (g.beforeTail stats).edges = w.graph.edges := by
  obtain ⟨extra, hedges, -, hids⟩ := h.tail_extends.edges
  unfold Graph.beforeTail
  rw [h.nextEdge_walk, h.graph_eq, hedges, List.filter_append]
  have hown : w.graph.edges.filter (fun e => e.id < w.graph.nextEdge) = w.graph.edges := by
    refine List.filter_eq_self.mpr ?_
    intro e he
    exact decide_eq_true (h.finished.inv.wellFormed.ids_below e he)
  have hextra : extra.filter (fun e => e.id < w.graph.nextEdge) = [] := by
    refine List.filter_eq_nil_iff.mpr ?_
    intro e he hlt
    exact absurd (of_decide_eq_true hlt) (Nat.not_lt.mpr (hids e he))
  rw [hown, hextra, List.append_nil]

theorem outs_beforeTail (h : BuiltFrom r t labels w g stats) (p : Int) :
    (g.beforeTail stats).outs p = w.graph.outs p := by
  unfold Graph.outs
  rw [h.edges_beforeTail]

/-- Joining the trailing code does not change the level at which the walk entered a position. -/
theorem entryLevel (h : BuiltFrom r t labels w g stats) {p : Int} {level : Int64}
    (hp : w.graph.EntryLevel p level) : g.EntryLevel p level := by
  obtain ⟨extra, hedges, -, hids⟩ := h.tail_extends.edges
  refine hp.imp_right ?_
  rintro ⟨h0, e, he, hleast, hlevel⟩
  obtain ⟨hmem, htarget⟩ := Graph.mem_ins.mp he
  refine ⟨h0, e, ?_, ?_, hlevel⟩
  · rw [Graph.mem_ins, h.graph_eq, hedges]
    exact ⟨List.mem_append_left _ hmem, htarget⟩
  · intro f hf
    rw [Graph.mem_ins, h.graph_eq, hedges] at hf
    rcases List.mem_append.mp hf.1 with hf₁ | hf₁
    · exact hleast f (Graph.mem_ins.mpr ⟨hf₁, hf.2⟩)
    · have hbelow := h.finished.inv.wellFormed.ids_below e hmem
      have habove := hids f hf₁
      omega

end BuiltFrom

/-- The walk's edges are the control successors of the positions that control can come to: from each
such position its successors at the level at which it was entered, in order and each once, and from
every other position none. -/
theorem build_draws_successors (h : r.build t = .ok (g, stats)) :
    ∃ labels, r.labelIndex = .ok labels ∧
      (∀ p, r.Reached labels t p → (∃ level, g.EntryLevel p level) ∧
        ∀ level, g.EntryLevel p level →
          r.successors? labels t p level = some (.ok ((g.beforeTail stats).drawn p))) ∧
      ∀ p, ¬ r.Reached labels t p → (g.beforeTail stats).outs p = [] := by
  rcases build_eq_ok h with ⟨hops, rfl, rfl⟩ | ⟨labels, w, hb⟩
  · refine ⟨{}, by rw [labelIndex, hops]; rfl, ?_, ?_⟩
    · rintro p ⟨hstart, -⟩
      simp [opAt?, hops] at hstart
    · intro p _
      rfl
  · refine ⟨labels, hb.index_eq, ?_, ?_⟩
    · intro p hp
      obtain ⟨level, hlevel, hss⟩ := hb.finished.successors (hb.finished.mem_visited.mpr hp)
      refine ⟨⟨level, hb.entryLevel hlevel⟩, ?_⟩
      intro level' hlevel'
      rw [hlevel'.unique hb.wellFormed (hb.entryLevel hlevel), Graph.drawn, hb.outs_beforeTail]
      exact hss
    · intro p hp
      rw [hb.outs_beforeTail]
      exact hb.finished.outs_eq_nil hp

/-- A loop around a branch, its end, and code behind the end. -/
def waitLoop : Routine :=
  { id := 1
    ops :=
      [.label 1, .plain { code := { name := "Message" } },
        .labelJump { code := { name := "BranchValue" } } ⟨1, 1⟩,
        .plain { code := { name := "Return" } }, .plain { code := { name := "Message" } },
        .plain { code := { name := "Message" } }] }

theorem waitLoop_draws_successors :
    ∃ g stats, waitLoop.build .default = .ok (g, stats) ∧
      ∃ labels, waitLoop.labelIndex = .ok labels ∧
        (∀ p, waitLoop.Reached labels .default p → (∃ level, g.EntryLevel p level) ∧
          ∀ level, g.EntryLevel p level →
            waitLoop.successors? labels .default p level =
              some (.ok ((g.beforeTail stats).drawn p))) ∧
        ∀ p, ¬ waitLoop.Reached labels .default p → (g.beforeTail stats).outs p = [] :=
  ⟨_, _, rfl, build_draws_successors rfl⟩

end Routine

end FlowRecovery

import FlowRecovery.Proofs.Flow.Build

/-! The loop flags of the walk. An edge is flagged when its target already leads to its source, so
of the edges of any cycle the one drawn last is flagged, and a flagged edge has a way back. The edge
that enters a position is never flagged, because nothing leaves the position yet; hence the edges
that are not flagged lead from the start to every position the walk enters. -/

namespace FlowRecovery

open Relation

/-- A path that may use one further edge, from `s` to `t`, either does without it or comes to `s`
and goes on from `t`. -/
theorem transGen_or_through {α : Type} {R : α → α → Prop} {s t x y : α}
    (h : TransGen (fun a b => R a b ∨ a = s ∧ b = t) x y) :
    TransGen R x y ∨ ReflTransGen R x s ∧ ReflTransGen R t y := by
  induction h with
  | single hstep =>
    rcases hstep with hstep | ⟨rfl, rfl⟩
    · exact Or.inl (TransGen.single hstep)
    · exact Or.inr ⟨ReflTransGen.refl, ReflTransGen.refl⟩
  | tail _ hstep ih =>
    rcases hstep with hstep | ⟨rfl, rfl⟩
    · rcases ih with ih | ⟨hxs, hty⟩
      · exact Or.inl (ih.tail hstep)
      · exact Or.inr ⟨hxs, hty.tail hstep⟩
    · rcases ih with ih | ⟨hxs, -⟩
      · exact Or.inr ⟨ih.to_reflTransGen, ReflTransGen.refl⟩
      · exact Or.inr ⟨hxs, ReflTransGen.refl⟩

/-- A path either takes only steps of `S` or takes some other step of `R`. -/
theorem transGen_or_exists {α : Type} {R S : α → α → Prop} {x y : α} (h : TransGen R x y) :
    TransGen S x y ∨ ∃ a b, ReflTransGen R x a ∧ R a b ∧ ¬ S a b ∧ ReflTransGen R b y := by
  induction h with
  | @single y hstep =>
    by_cases hs : S x y
    · exact Or.inl (TransGen.single hs)
    · exact Or.inr ⟨x, y, ReflTransGen.refl, hstep, hs, ReflTransGen.refl⟩
  | @tail y z hpath hstep ih =>
    rcases ih with ih | ⟨a, b, hxa, hab, hs, hby⟩
    · by_cases hs : S y z
      · exact Or.inl (ih.tail hs)
      · exact Or.inr ⟨y, z, hpath.to_reflTransGen, hstep, hs, ReflTransGen.refl⟩
    · exact Or.inr ⟨a, b, hxa, hab, hs, hby.tail hstep⟩

namespace Graph

/-- There is an edge from `u` to `v` that is not flagged as closing a cycle. -/
def PlainStep (g : Graph) (u v : Int) : Prop :=
  ∃ e ∈ g.edges, e.attrs.loop = false ∧ e.source = u ∧ e.target = v

/-- The edge and a path from its target back to its source make a cycle. -/
def OnCycle (g : Graph) (e : Edge) : Prop :=
  e ∈ g.edges ∧ ReflTransGen g.Step e.target e.source

variable {g : Graph} {s t : Int} {a : Attrs}

theorem PlainStep.step {u v : Int} (h : g.PlainStep u v) : g.Step u v := by
  obtain ⟨e, he, -, hu, hv⟩ := h
  exact ⟨e, he, hu, hv⟩

theorem plainStep_link (hs : s ∈ g.live) (ht : t ∈ g.live) (u v : Int) :
    (g.link s t a).PlainStep u v ↔ g.PlainStep u v ∨ a.loop = false ∧ u = s ∧ v = t := by
  unfold PlainStep
  rw [edges_link hs ht]
  constructor
  · rintro ⟨e, he, hloop, hu, hv⟩
    rcases List.mem_append.mp he with he | he
    · exact Or.inl ⟨e, he, hloop, hu, hv⟩
    · obtain rfl := List.mem_singleton.mp he
      exact Or.inr ⟨hloop, hu.symm, hv.symm⟩
  · rintro (⟨e, he, hloop, hu, hv⟩ | ⟨hloop, rfl, rfl⟩)
    · exact ⟨e, List.mem_append_left _ he, hloop, hu, hv⟩
    · exact ⟨_, List.mem_append_right _ (List.mem_singleton_self _), hloop, rfl, rfl⟩

/-- An edge that closes no cycle, or is flagged, keeps the plain edges free of cycles. -/
theorem acyclic_link (hs : s ∈ g.live) (ht : t ∈ g.live)
    (hacyclic : ∀ v, ¬ TransGen g.PlainStep v v)
    (hflag : a.loop = false → ¬ ReflTransGen g.Step t s) (v : Int) :
    ¬ TransGen (g.link s t a).PlainStep v v := by
  intro hcycle
  cases hloop : a.loop with
  | true =>
    refine hacyclic v (TransGen.mono ?_ v v hcycle)
    intro x y hstep
    rcases (plainStep_link hs ht x y).mp hstep with hold | ⟨hfalse, -⟩
    · exact hold
    · simp [hloop] at hfalse
  | false =>
    have hthrough : TransGen (fun x y => g.PlainStep x y ∨ x = s ∧ y = t) v v :=
      TransGen.mono (fun x y hstep => ((plainStep_link hs ht x y).mp hstep).imp_right And.right)
        v v hcycle
    rcases transGen_or_through hthrough with hold | ⟨hvs, htv⟩
    · exact hacyclic v hold
    · exact hflag hloop (ReflTransGen.mono (fun _ _ => PlainStep.step) t s (htv.trans hvs))

end Graph

namespace Walk

variable {r : Routine} {labels : LabelIndex} {t : Table} {w : Walk}

structure LoopInv (w : Walk) : Prop where
  acyclic : ∀ v, ¬ TransGen w.graph.PlainStep v v
  plain : ∀ p ∈ w.visited, ReflTransGen w.graph.PlainStep 0 p
  closes : ∀ e ∈ w.graph.edges, e.attrs.loop = true → ReflTransGen w.graph.Step e.target e.source

namespace LoopInv

section Draw

variable {p : Int} {s : Successor}

theorem reachable_iff (h : Inv r labels t w) {u v : Int} :
    w.graph.reachable u v = true ↔ ReflTransGen w.graph.Step u v :=
  Graph.reachable_iff h.wellFormed.target_live

theorem acyclic_drawTo (h : Inv r labels t w) (hl : LoopInv w) (hp : p ∈ w.graph.live)
    (hs : s.pos ∈ w.graph.live) (v : Int) : ¬ TransGen (w.drawTo p s).PlainStep v v := by
  refine Graph.acyclic_link hp hs hl.acyclic ?_ v
  intro hloop hpath
  rw [(reachable_iff h).mpr hpath] at hloop
  exact Bool.false_ne_true hloop.symm

theorem plain_drawTo (hl : LoopInv w) (hp : p ∈ w.graph.live) (hs : s.pos ∈ w.graph.live) {q : Int}
    (hq : q ∈ w.visited) : ReflTransGen (w.drawTo p s).PlainStep 0 q :=
  ReflTransGen.mono (fun x y hstep => (Graph.plainStep_link hp hs x y).mpr (Or.inl hstep))
    0 q (hl.plain q hq)

theorem closes_drawTo (h : Inv r labels t w) (hl : LoopInv w) (hp : p ∈ w.graph.live)
    (hs : s.pos ∈ w.graph.live) {e : Edge} (he : e ∈ (w.drawTo p s).edges)
    (hloop : e.attrs.loop = true) : ReflTransGen (w.drawTo p s).Step e.target e.source := by
  have hmono : ∀ x y, w.graph.Step x y → (w.drawTo p s).Step x y :=
    fun x y hstep => (Graph.step_link hp hs _ x y).mpr (Or.inl hstep)
  rw [drawTo, Graph.edges_link hp hs] at he
  rcases List.mem_append.mp he with he | he
  · exact ReflTransGen.mono hmono _ _ (hl.closes e he hloop)
  · obtain rfl := List.mem_singleton.mp he
    exact ReflTransGen.mono hmono _ _ ((reachable_iff h).mp hloop)

/-- Nothing leaves a position that has not been entered, so the edge to it closes no cycle. -/
theorem reachable_new (h : Inv r labels t w) (hp : p ∈ w.visited) (hnew : s.pos ∉ w.visited) :
    w.graph.reachable s.pos p = false := by
  refine Bool.eq_false_iff.mpr ?_
  intro hreach
  rcases ReflTransGen.cases_head ((reachable_iff h).mp hreach) with heq | ⟨q, ⟨e, he, hsource, -⟩, -⟩
  · exact hnew (heq ▸ hp)
  · exact hnew (hsource ▸ h.source_visited e he)

end Draw

theorem next (h : Inv r labels t w) (hl : LoopInv w) {w' : Walk} (hnext : Next r labels t w w') :
    LoopInv w' := by
  cases hnext with
  | rest => exact hl
  | leave => exact ⟨hl.acyclic, hl.plain, hl.closes⟩
  | draw hstack hp hs hseen =>
    exact ⟨acyclic_drawTo h hl hp hs, fun q hq => plain_drawTo hl hp hs hq,
      fun e he hloop => closes_drawTo h hl hp hs he hloop⟩
  | @enter p s pending below frame hstack hp hs hnew hframe =>
    refine ⟨acyclic_drawTo h hl hp hs, ?_, fun e he hloop => closes_drawTo h hl hp hs he hloop⟩
    have hpv : p ∈ w.visited := h.top_visited hstack
    intro q hq
    rcases List.mem_cons.mp hq with rfl | hq
    · refine (plain_drawTo hl hp hs hpv).tail ?_
      exact (Graph.plainStep_link hp hs p s.pos).mpr (Or.inr ⟨reachable_new h hpv hnew, rfl, rfl⟩)
    · exact plain_drawTo hl hp hs hq

theorem of_ofRoutine (hpos : (r.opAt? 0).isSome) (h : ofRoutine r labels t = .ok w) :
    LoopInv w := by
  refine (ofRoutine_induction (P := fun w => Inv r labels t w ∧ LoopInv w) ?_
    (fun _ _ hw hnext => ⟨hw.1.next hnext, next hw.1 hw.2 hnext⟩) h).2
  intro frame hframe
  refine ⟨Inv.start_of_enter hpos hframe, ?_, ?_, ?_⟩
  · intro v hcycle
    obtain ⟨u, ⟨e, he, -⟩, -⟩ := TransGen.head'_iff.mp hcycle
    exact absurd he List.not_mem_nil
  · intro p hp
    rw [List.mem_singleton.mp hp]
  · intro e he
    exact absurd he List.not_mem_nil

end LoopInv

end Walk

namespace Routine

variable {r : Routine} {t : Table} {g : Graph} {stats : BuildStats}

/-- Among the walk's edges, those that are not flagged make no cycle and lead from the start to every
position that control can come to, and each flagged one lies on a cycle. -/
theorem build_flags_cycles (h : r.build t = .ok (g, stats)) :
    ∃ labels, r.labelIndex = .ok labels ∧
      (∀ p, ¬ TransGen (g.beforeTail stats).PlainStep p p) ∧
      (∀ p, r.Reached labels t p → ReflTransGen (g.beforeTail stats).PlainStep 0 p) ∧
      ∀ e ∈ (g.beforeTail stats).edges, e.attrs.loop = true → (g.beforeTail stats).OnCycle e := by
  rcases build_eq_ok h with ⟨hops, rfl, rfl⟩ | ⟨labels, w, hb⟩
  · refine ⟨{}, by rw [labelIndex, hops]; rfl, ?_, ?_, ?_⟩
    · intro p hcycle
      obtain ⟨q, ⟨e, he, -⟩, -⟩ := TransGen.head'_iff.mp hcycle
      exact absurd he List.not_mem_nil
    · rintro p ⟨hstart, -⟩
      simp [opAt?, hops] at hstart
    · intro e he
      exact absurd he List.not_mem_nil
  · have hloops := Walk.LoopInv.of_ofRoutine hb.start hb.walk_eq
    have hplain : (g.beforeTail stats).PlainStep = w.graph.PlainStep := by
      unfold Graph.PlainStep
      rw [hb.edges_beforeTail]
    have hstep : (g.beforeTail stats).Step = w.graph.Step := by
      unfold Graph.Step
      rw [hb.edges_beforeTail]
    refine ⟨labels, hb.index_eq, ?_, ?_, ?_⟩
    · rw [hplain]
      exact hloops.acyclic
    · intro p hp
      rw [hplain]
      exact hloops.plain p (hb.finished.mem_visited.mpr hp)
    · intro e he hloop
      refine ⟨he, ?_⟩
      rw [hb.edges_beforeTail] at he
      rw [hstep]
      exact hloops.closes e he hloop

theorem waitLoop_flags_cycles :
    ∃ g stats, waitLoop.build .default = .ok (g, stats) ∧
      ∃ labels, waitLoop.labelIndex = .ok labels ∧
        (∀ p, ¬ TransGen (g.beforeTail stats).PlainStep p p) ∧
        (∀ p, waitLoop.Reached labels .default p →
          ReflTransGen (g.beforeTail stats).PlainStep 0 p) ∧
        ∀ e ∈ (g.beforeTail stats).edges, e.attrs.loop = true → (g.beforeTail stats).OnCycle e :=
  ⟨_, _, rfl, build_flags_cycles rfl⟩

end Routine

end FlowRecovery

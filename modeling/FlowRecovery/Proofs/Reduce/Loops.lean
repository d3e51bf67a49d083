import FlowRecovery.Proofs.Flow.Cycle
import FlowRecovery.Proofs.Reduce.Paths

/-! What becomes of the loop flags. In a built graph without trailing code every cycle has a flagged
edge. The passes keep the flags of the edges of vertices that are left, and with a removed vertex the
flags of its own edges are gone; an edge that is led past it keeps what it had. So a cycle is left
without a flag exactly if it runs, in the built graph, along unflagged edges of vertices that are left
and past removed vertices, and then it has lost the flag of an edge of one of these. -/

namespace FlowRecovery

open Relation

namespace Graph

variable {r : Routine} {t : Table} {g g' : Graph} {stats : BuildStats} {land : Int → Int}

/-- Every cycle has an edge that is flagged as closing it. -/
def LoopsFlagged (g : Graph) : Prop := ∀ v, ¬ TransGen g.PlainStep v v

/-- A step of the built graph that leaves no flag behind: along an edge without a flag from a vertex
that is left, or past a removed vertex. -/
def SilentStep (g g' : Graph) (land : Int → Int) (x y : Int) : Prop :=
  x ∈ g'.live ∧ g.PlainStep x y ∨ g.Follows (Removed g g') land x y

theorem loopsFlagged_of_build (h : r.build t = .ok (g, stats)) (htail : stats.tailEdges = 0) :
    g.LoopsFlagged := by
  intro v hcycle
  rcases Routine.build_eq_ok h with ⟨hops, rfl, rfl⟩ | ⟨labels, w, hb⟩
  · obtain ⟨u, ⟨e, he, -⟩, -⟩ := TransGen.head'_iff.mp hcycle
    exact absurd he List.not_mem_nil
  · have hplain : g.PlainStep = w.graph.PlainStep := by
      unfold PlainStep
      rw [hb.edges_eq_walk htail]
    rw [hplain] at hcycle
    exact (Walk.LoopInv.of_ofRoutine hb.start hb.walk_eq).acyclic v hcycle

/-- A cycle of what is left has no flag if and only if it was silent. -/
theorem Contraction.plainCycle_iff (h : Contraction Attrs.flow g g' land) (hg' : g'.WellFormed)
    (hfollows : ∀ x, ReflTransGen (g.Follows (Removed g g') land) x (land x)) (v : Int) :
    TransGen g'.PlainStep v v ↔ v ∈ g'.live ∧ TransGen (SilentStep g g' land) v v := by
  have hiff : v ∈ g'.live → (TransGen g'.PlainStep v v ↔ TransGen (SilentStep g g' land) v v) :=
    fun hv => h.transGen_iff (q := fun a : Int64 × Bool => a.2 = false) hfollows hg'.source_live hv hv
  constructor
  · intro hcycle
    have hv : v ∈ g'.live := by
      obtain ⟨u, ⟨e, he, -, rfl, -⟩, -⟩ := TransGen.head'_iff.mp hcycle
      exact hg'.source_live e he
    exact ⟨hv, (hiff hv).mp hcycle⟩
  · rintro ⟨hv, hcycle⟩
    exact (hiff hv).mpr hcycle

/-- A silent cycle of a graph that has all its cycles flagged passes by a flag. -/
theorem LoopsFlagged.exists_passed (h : g.LoopsFlagged) {v : Int}
    (hcycle : TransGen (SilentStep g g' land) v v) :
    ∃ x, Removed g g' x ∧ ∃ e ∈ g.outs x, e.attrs.loop = true ∧
      ReflTransGen (SilentStep g g' land) v x ∧
      ReflTransGen (SilentStep g g' land) e.target v := by
  rcases transGen_or_exists (S := g.PlainStep) hcycle with hplain | ⟨a, b, hva, hab, hflag, hbv⟩
  · exact absurd hplain (h v)
  · rcases hab with ⟨-, hplain⟩ | ⟨⟨hgone, e, he, rfl, rfl⟩, -⟩
    · exact absurd hplain hflag
    · refine ⟨e.source, hgone, e, mem_outs.mpr ⟨he, rfl⟩, ?_, hva, hbv⟩
      by_contra hloop
      exact hflag ⟨e, he, Bool.eq_false_iff.mpr hloop, rfl, rfl⟩

theorem exists_follows_minimize {p : Passes} (h : r.build t = .ok (g, stats))
    (hfault : (g.minimize t p).fault = none) :
    ∃ land, Contraction Attrs.flow g (g.minimize t p).graph land ∧
      (g.minimize t p).graph.WellFormed ∧
      ∀ x, ReflTransGen (g.Follows (Removed g (g.minimize t p).graph) land) x (land x) := by
  obtain ⟨land, hfirst⟩ := exists_firstPass h p
  have hfollows := hfirst.contraction.follows_of_single hfirst.single
  rw [fault_minimize] at hfault
  rw [graph_minimize]
  split_ifs at hfault ⊢
  · exact ⟨land, hfirst.contraction, hfirst.wellFormed, hfollows⟩
  · obtain ⟨land', hsecond⟩ := exists_secondPass hfirst.wellFormed hfault
    exact ⟨land' ∘ land, hfirst.contraction.trans hsecond.contraction, hsecond.wellFormed,
      hfirst.contraction.follows_trans hsecond.contraction hfollows hsecond.follows⟩

/-- Which cycles have no flag after the passes. They are those that were silent in the built graph, and
each of them has lost the flag of an edge of a removed vertex that it passes by. -/
theorem minimize_plainCycle_iff {p : Passes} (h : r.build t = .ok (g, stats))
    (htail : stats.tailEdges = 0) (hfault : (g.minimize t p).fault = none) :
    ∃ land, Contraction Attrs.flow g (g.minimize t p).graph land ∧
      ((g.minimize t p).graph.LoopsFlagged ↔
        ∀ v ∈ (g.minimize t p).graph.live,
          ¬ TransGen (SilentStep g (g.minimize t p).graph land) v v) ∧
      ∀ v, TransGen (g.minimize t p).graph.PlainStep v v →
        ∃ x, Removed g (g.minimize t p).graph x ∧ ∃ e ∈ g.outs x, e.attrs.loop = true ∧
          ReflTransGen (SilentStep g (g.minimize t p).graph land) v x ∧
          ReflTransGen (SilentStep g (g.minimize t p).graph land) e.target v := by
  obtain ⟨land, hland, hg', hfollows⟩ := exists_follows_minimize h hfault
  have hiff := hland.plainCycle_iff hg' hfollows
  refine ⟨land, hland, ?_, ?_⟩
  · constructor
    · intro hflagged v hv hcycle
      exact hflagged v ((hiff v).mpr ⟨hv, hcycle⟩)
    · intro hsilent v hcycle
      obtain ⟨hv, hcycle⟩ := (hiff v).mp hcycle
      exact hsilent v hv hcycle
  · intro v hcycle
    exact (loopsFlagged_of_build h htail).exists_passed ((hiff v).mp hcycle).2

/-- A loop whose body is a branch, and both arms of the branch jump back to the head of the loop. -/
def doubleBack : Routine :=
  { id := 1
    ops :=
      [.label 1, .labelJump { code := { name := "BranchValue" } } ⟨1, 2⟩,
        .labelJump { code := { name := "Jump" } } ⟨1, 1⟩, .label 2,
        .labelJump { code := { name := "Jump" } } ⟨1, 1⟩] }

theorem doubleBack_plainCycle_iff :
    ∃ g stats, doubleBack.build .default = .ok (g, stats) ∧ stats.tailEdges = 0 ∧
      (g.minimize .default {}).fault = none ∧
      ∃ land, Contraction Attrs.flow g (g.minimize .default {}).graph land ∧
        ((g.minimize .default {}).graph.LoopsFlagged ↔
          ∀ v ∈ (g.minimize .default {}).graph.live,
            ¬ TransGen (SilentStep g (g.minimize .default {}).graph land) v v) ∧
        ∀ v, TransGen (g.minimize .default {}).graph.PlainStep v v →
          ∃ x, Removed g (g.minimize .default {}).graph x ∧ ∃ e ∈ g.outs x, e.attrs.loop = true ∧
            ReflTransGen (SilentStep g (g.minimize .default {}).graph land) v x ∧
            ReflTransGen (SilentStep g (g.minimize .default {}).graph land) e.target v :=
  ⟨_, _, rfl, rfl, rfl, minimize_plainCycle_iff (r := doubleBack) (p := {}) rfl rfl rfl⟩

/-- Either pass takes the flags away that close the loop. -/
theorem doubleBack_not_loopsFlagged :
    ∃ g stats, doubleBack.build .default = .ok (g, stats) ∧ stats.tailEdges = 0 ∧
      ∀ p : Passes, p ≠ ⟨true, true⟩ → (g.minimize .default p).fault = none ∧
        ¬ (g.minimize .default p).graph.LoopsFlagged := by
  refine ⟨_, _, rfl, rfl, ?_⟩
  have hcycle : ∀ g : Graph, g.PlainStep 0 1 → g.PlainStep 1 0 → ¬ g.LoopsFlagged :=
    fun g hon hback hflagged => hflagged 0 ((TransGen.single hon).tail hback)
  rintro ⟨skipCollapse, skipBranches⟩ hp
  cases skipCollapse <;> cases skipBranches
  · exact ⟨rfl, hcycle _ (by unfold PlainStep; decide) (by unfold PlainStep; decide)⟩
  · exact ⟨rfl, hcycle _ (by unfold PlainStep; decide) (by unfold PlainStep; decide)⟩
  · exact ⟨rfl, hcycle _ (by unfold PlainStep; decide) (by unfold PlainStep; decide)⟩
  · exact absurd rfl hp

end Graph

end FlowRecovery

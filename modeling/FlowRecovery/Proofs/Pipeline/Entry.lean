import FlowRecovery.Proofs.Pipeline.Jumps
import FlowRecovery.Proofs.Reduce.Paths

/-! The entry of a graph is its first vertex. No edge leads to it, so when the passes remove it there is
nothing to lead elsewhere, and the first vertex that is left may be another than the one that the entry
comes to. What control could come to is kept exactly if the first vertex leads to where the entry comes
to, and to where every edge of a removed vertex comes to that control could leave by it. -/

namespace FlowRecovery

open Relation FlowRecovery.Graph

variable {r : Routine} {t : Table} {g g' : Graph} {land : Int → Int} {first : Int}

/-- All that the entry of `g` led to and that is left, the first vertex of `g'` leads to. -/
def KeepsEntry (g g' : Graph) : Prop :=
  ∀ first, g'.live.head? = some first →
    ∀ x ∈ g'.live, ReflTransGen g.Step 0 x → ReflTransGen g'.Step first x

namespace Graph.Contraction

variable (h : Contraction Attrs.flow g g' land)

include h

theorem path_land (x : Int) : ReflTransGen g.Step x (land x) :=
  ReflTransGen.mono (fun _ _ hpass => hpass.2) x _ (h.path x)

/-- What the entry leads to comes to vertices that `first` leads to, if the entry does and removed
vertices pass this on along their edges. -/
theorem reaches_land (hentry : ReflTransGen g'.Step first (land 0))
    (hpass : ∀ j, Removed g g' j → ReflTransGen g.Step 0 j → ReflTransGen g'.Step first (land j) →
      ∀ e ∈ g.outs j, ReflTransGen g'.Step first (land e.target))
    (hlive : ∀ e ∈ g.edges, e.source ∈ g.live) {x : Int} (hx : ReflTransGen g.Step 0 x) :
    ReflTransGen g'.Step first (land x) := by
  induction hx with
  | refl => exact hentry
  | @tail y z hy hstep ih =>
    obtain ⟨e, he, rfl, rfl⟩ := hstep
    by_cases hleft : e.source ∈ g'.live
    · rw [h.fixed _ hleft] at ih
      have hstep' : g'.Step e.source (land e.target) := by
        have hmem := (h.outs _ hleft).symm.subset
          (List.mem_map_of_mem (mem_outs.mpr ⟨he, rfl⟩))
        obtain ⟨e', he', heq⟩ := List.mem_map.mp hmem
        obtain ⟨hedge, hsource⟩ := mem_outs.mp he'
        exact ⟨e', hedge, hsource, (Prod.mk.inj heq).2⟩
      exact ih.tail hstep'
    · exact hpass _ ⟨hlive e he, hleft⟩ hy ih e (mem_outs.mpr ⟨he, rfl⟩)

theorem keepsEntry_iff (hg : g.WellFormed) (h0 : 0 ∈ g.live) (hfirst : g'.live.head? = some first) :
    KeepsEntry g g' ↔
      ReflTransGen g'.Step first (land 0) ∧
        ∀ j, Removed g g' j → ReflTransGen g.Step 0 j →
          ∀ e ∈ g.outs j, ReflTransGen g'.Step first (land e.target) := by
  constructor
  · intro hkeeps
    refine ⟨hkeeps first hfirst _ (h.lands 0 h0) (h.path_land 0), ?_⟩
    intro j _ hj e he
    obtain ⟨hedge, hsource⟩ := mem_outs.mp he
    refine hkeeps first hfirst _ (h.lands _ (hg.target_live e hedge)) ?_
    exact (hj.tail ⟨e, hedge, hsource, rfl⟩).trans (h.path_land e.target)
  · rintro ⟨hentry, hpass⟩ first' hfirst' x hx hpath
    obtain rfl := Option.some.inj (hfirst.symm.trans hfirst')
    have hland := h.reaches_land hentry (fun j hj hpath _ => hpass j hj hpath) hg.source_live hpath
    rwa [h.fixed x hx] at hland

/-- Vertices with one edge pass on by it what they come to. -/
theorem keepsEntry_iff_of_single (hg : g.WellFormed) (h0 : 0 ∈ g.live)
    (hfirst : g'.live.head? = some first) (hone : ∀ x, Removed g g' x → (g.outs x).length ≤ 1) :
    KeepsEntry g g' ↔ ReflTransGen g'.Step first (land 0) := by
  constructor
  · intro hkeeps
    exact hkeeps first hfirst _ (h.lands 0 h0) (h.path_land 0)
  · intro hentry first' hfirst' x hx hpath
    obtain rfl := Option.some.inj (hfirst.symm.trans hfirst')
    have hland := h.reaches_land hentry ?_ hg.source_live hpath
    · rwa [h.fixed x hx] at hland
    · intro j hj _ hreached e he
      obtain ⟨e', he', hland⟩ := h.along j hj
      obtain ⟨only, honly⟩ := List.length_eq_one_iff.mp
        (Nat.le_antisymm (hone j hj) (List.length_pos_of_mem he))
      rw [honly, List.mem_singleton] at he he'
      rw [he, ← he', hland]
      exact hreached

end Graph.Contraction

/-- The entry stays the first vertex unless it is removed. -/
theorem head?_eq_of_mem (hg : g.WellFormed) (hsub : ∀ x ∈ g'.live, x ∈ g.live)
    (hsorted : g'.live.Pairwise (· < ·)) (h0 : 0 ∈ g'.live) : g'.live.head? = some 0 := by
  cases hlive : g'.live with
  | nil => simp [hlive] at h0
  | cons x rest =>
    rw [hlive] at h0 hsorted
    rcases List.mem_cons.mp h0 with rfl | hrest
    · rfl
    · have hless := (List.pairwise_cons.mp hsorted).1 0 hrest
      have hinside := (hg.live_inside x (hsub x (hlive ▸ List.mem_cons_self ..))).1
      omega

/-- The vertices that a run leaves are in good order. -/
theorem wellFormed_minimize {p : Passes} {stats : BuildStats} (h : r.build t = .ok (g, stats))
    (hfault : (g.minimize t p).fault = none) : (g.minimize t p).graph.WellFormed := by
  obtain ⟨land, hfirst⟩ := exists_firstPass h p
  rw [fault_minimize] at hfault
  rw [graph_minimize]
  split_ifs at hfault ⊢
  · exact hfirst.wellFormed
  · obtain ⟨land', hsecond⟩ := exists_secondPass hfirst.wellFormed hfault
    exact hsecond.wellFormed

theorem zero_mem_live_of_build {stats : BuildStats} (h : r.build t = .ok (g, stats))
    (hops : r.ops ≠ []) : 0 ∈ g.live := by
  rcases Routine.build_eq_ok h with ⟨hnil, -⟩ | ⟨labels, w, hb⟩
  · exact absurd hnil hops
  · exact hb.spans.mem_live.mpr hb.start

/-- When a run that succeeds keeps what the entry leads to: exactly if the first vertex that is left
leads to where the entry comes to and to where the edges of removed vertices come to that the entry leads
to. Where jumps end the flow and there is no trailing code the second part goes without saying, and while
the entry itself is left it is the first vertex. -/
theorem recover_keepsEntry_iff {o : Options} {n : Nat}
    (h : (o.recover n r).1.graphIfOk? = some g') (hops : r.ops ≠ []) :
    ∃ s g stats land first, o.settings n = .ok s ∧ r.build s.table = .ok (g, stats) ∧
      Contraction Attrs.flow g g' land ∧ g'.live.head? = some first ∧
      (KeepsEntry g g' ↔
        ReflTransGen g'.Step first (land 0) ∧
          ∀ j, Removed g g' j → ReflTransGen g.Step 0 j →
            ∀ e ∈ g.outs j, ReflTransGen g'.Step first (land e.target)) ∧
      (s.table.JumpsEnd → stats.tailEdges = 0 →
        (KeepsEntry g g' ↔ ReflTransGen g'.Step first (land 0))) ∧
      (0 ∈ g'.live → first = 0 ∧ land 0 = 0) := by
  obtain ⟨s, g, stats, hs, hbuild, hfault, rfl⟩ := minimize_of_recover h
  obtain ⟨⟨land, hland⟩, hremoves⟩ := contraction_minimize hbuild hfault
  have hg := (wellFormed_of_build hbuild).1
  have h0 := zero_mem_live_of_build hbuild hops
  have hne : (g.minimize s.table s.passes).graph.live ≠ [] := List.ne_nil_of_mem (hland.lands 0 h0)
  have hfirst := List.head?_eq_some_head hne
  refine ⟨s, g, stats, land, _, hs, hbuild, hland, hfirst, hland.keepsEntry_iff hg h0 hfirst, ?_, ?_⟩
  · intro ht htail
    refine hland.keepsEntry_iff_of_single hg h0 hfirst ?_
    intro j hj
    rcases hremoves j hj with hjump | ⟨-, i, hi, -⟩
    · exact (leavesForLabel_of_build ht hbuild htail hjump).few
    · exact Nat.le_of_eq (by rw [hi, List.length_singleton])
  · intro hleft
    have hzero := head?_eq_of_mem hg hland.live_sub (wellFormed_minimize hbuild hfault).live_sorted hleft
    exact ⟨Option.some.inj (hfirst.symm.trans hzero), hland.fixed 0 hleft⟩

/-- A chain in front of the label that it leads to. -/
def leadingChain : Routine :=
  { id := 1
    ops :=
      [.label 1, .labelJump { code := { name := "Jump" } } ⟨1, 2⟩, .label 2,
        .plain { code := { name := "Return" } }] }

theorem leadingChain_keepsEntry_iff :
    ∃ g', (({} : Options).recover 1 leadingChain).1.graphIfOk? = some g' ∧
      leadingChain.ops ≠ [] ∧ g'.live = [2, 3] ∧
      ∃ s g stats land first, ({} : Options).settings 1 = .ok s ∧
        leadingChain.build s.table = .ok (g, stats) ∧
        Contraction Attrs.flow g g' land ∧ g'.live.head? = some first ∧
        (KeepsEntry g g' ↔
          ReflTransGen g'.Step first (land 0) ∧
            ∀ j, Removed g g' j → ReflTransGen g.Step 0 j →
              ∀ e ∈ g.outs j, ReflTransGen g'.Step first (land e.target)) ∧
        (s.table.JumpsEnd → stats.tailEdges = 0 →
          (KeepsEntry g g' ↔ ReflTransGen g'.Step first (land 0))) ∧
        (0 ∈ g'.live → first = 0 ∧ land 0 = 0) :=
  ⟨_, rfl, by decide, rfl,
    recover_keepsEntry_iff (o := {}) (n := 1) (r := leadingChain) rfl (by decide)⟩

/-- The same with an operation in between that nothing leads to. -/
def lostEntry : Routine :=
  { id := 1
    ops :=
      [.label 1, .labelJump { code := { name := "Jump" } } ⟨1, 2⟩,
        .plain { code := { name := "Message" } }, .label 2,
        .plain { code := { name := "Return" } }] }

/-- The chain is removed, and the operation in between comes first. -/
theorem lostEntry_not_keepsEntry :
    ∃ g stats g', lostEntry.build .default = .ok (g, stats) ∧ stats.tailEdges = 0 ∧
      (({} : Options).recover 1 lostEntry).1.graphIfOk? = some g' ∧
      g'.live = [2, 3, 4] ∧ g'.edges.map (fun e => (e.source, e.target)) = [(3, 4)] ∧
      ¬ KeepsEntry g g' := by
  refine ⟨_, _, _, rfl, rfl, rfl, rfl, rfl, ?_⟩
  intro hkeeps
  have hafter := hkeeps 2 rfl 3 (by decide) ((reachable_iff (by decide)).mp rfl)
  rw [← reachable_iff (by decide)] at hafter
  exact absurd hafter (by decide)

end FlowRecovery

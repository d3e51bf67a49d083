import FlowRecovery.Proofs.Flow.Entry
import FlowRecovery.Proofs.Reduce.Minimize

/-! Contractions keep the paths between the vertices that are left: an edge that is left stands for an
edge to a removed vertex and the way on from there. Seen from the graph before, a path of what is left
runs along edges of vertices that are left, and passes removed vertices by the edges that lead to where
they come to. If removed vertices have no other edges, every path is of this kind, and so it is when
branches are structured, there is no trailing code and jumps end the flow. -/

namespace FlowRecovery.Graph

open Relation

variable {α : Type} {view : Attrs → α} {q : α → Prop} {g g' g'' : Graph} {land land' : Int → Int}

/-- There is an edge from `u` to `v` whose attributes are as `q` says. -/
def StepWith (view : Attrs → α) (q : α → Prop) (g : Graph) (u v : Int) : Prop :=
  ∃ e ∈ g.edges, q (view e.attrs) ∧ e.source = u ∧ e.target = v

/-- A step that a contraction keeps: along an edge of a vertex that is left, with attributes as `q`
says, or from a removed vertex on to where it comes to. -/
def KeptStep (view : Attrs → α) (q : α → Prop) (g g' : Graph) (land : Int → Int) (x y : Int) : Prop :=
  x ∈ g'.live ∧ StepWith view q g x y ∨ g.Follows (Removed g g') land x y

theorem stepWith_true (u v : Int) : StepWith view (fun _ => True) g u v ↔ g.Step u v := by
  simp [StepWith, Step]

namespace Contraction

/-! ### Following removed vertices -/

/-- A removed vertex with one edge can only be followed. -/
theorem follows_of_passesOn (h : Contraction view g g' land)
    (hone : ∀ x, Removed g g' x → ∃ e, g.outs x = [e]) {x y : Int}
    (hpass : g.PassesOn (Removed g g') x y) : g.Follows (Removed g g') land x y := by
  refine ⟨hpass, ?_⟩
  obtain ⟨hgone, e, he, rfl, rfl⟩ := hpass
  obtain ⟨o, ho⟩ := hone _ hgone
  obtain ⟨e', he', hland⟩ := h.along _ hgone
  have heo : e ∈ g.outs e.source := mem_outs.mpr ⟨he, rfl⟩
  rw [ho, List.mem_singleton] at heo he'
  obtain rfl : e = e' := heo.trans he'.symm
  exact hland

theorem follows_of_single (h : Contraction view g g' land)
    (hone : ∀ x, Removed g g' x → ∃ e, g.outs x = [e]) (x : Int) :
    ReflTransGen (g.Follows (Removed g g') land) x (land x) :=
  ReflTransGen.mono (fun _ _ hpass => h.follows_of_passesOn hone hpass) x _ (h.path x)

/-- Two contractions, one after the other. -/
theorem follows_trans (h : Contraction view g g' land) (h' : Contraction view g' g'' land')
    (hfollows : ∀ x, ReflTransGen (g.Follows (Removed g g') land) x (land x))
    (hfollows' : ∀ x, ReflTransGen (g'.Follows (Removed g' g'') land') x (land' x)) (x : Int) :
    ReflTransGen (g.Follows (Removed g g'') (land' ∘ land)) x (land' (land x)) := by
  have hfirst : ∀ y, ReflTransGen (g.Follows (Removed g g'') (land' ∘ land)) y (land y) := by
    intro y
    refine ReflTransGen.mono ?_ y _ (hfollows y)
    rintro a b ⟨⟨hgone, hstep⟩, hland⟩
    exact ⟨⟨h'.removed_mono hgone, hstep⟩, congrArg land' hland⟩
  refine (hfirst x).trans ?_
  refine ReflTransGen.trans_induction_on (hfollows' (land x)) (fun _ => ReflTransGen.refl) ?_
    fun _ _ hab hbc => hab.trans hbc
  -- a step past a vertex of the graph between is an edge of the first graph and what follows it
  rintro a b ⟨⟨⟨hlive, hgone⟩, e, he, rfl, rfl⟩, hland⟩
  obtain ⟨e₀, he₀, htarget⟩ := h.exists_mem_outs hlive (mem_outs.mpr ⟨he, rfl⟩)
  obtain ⟨hedge, hsource⟩ := mem_outs.mp he₀
  have hrest := hfirst e₀.target
  rw [htarget] at hrest
  refine hrest.head ⟨⟨⟨h.live_sub _ hlive, hgone⟩, e₀, hedge, hsource, rfl⟩, ?_⟩
  rw [Function.comp_apply, Function.comp_apply, htarget, h.fixed _ hlive, hland]

/-! ### Paths -/

section Paths

variable (h : Contraction view g g' land)

include h

theorem stepWith_iff {u v : Int} (hu : u ∈ g'.live) :
    StepWith view q g' u v ↔ ∃ y, StepWith view q g u y ∧ land y = v := by
  constructor
  · rintro ⟨e, he, hq, rfl, rfl⟩
    have hmem := (h.outs _ hu).subset (List.mem_map_of_mem (mem_outs.mpr ⟨he, rfl⟩))
    obtain ⟨e₀, he₀, hrow⟩ := List.mem_map.mp hmem
    obtain ⟨hview, htarget⟩ := Prod.mk.inj hrow
    obtain ⟨hedge, hsource⟩ := mem_outs.mp he₀
    exact ⟨e₀.target, ⟨e₀, hedge, hview.symm ▸ hq, hsource, rfl⟩, htarget⟩
  · rintro ⟨y, ⟨e₀, he₀, hq, rfl, rfl⟩, rfl⟩
    have hmem := (h.outs _ hu).symm.subset (List.mem_map_of_mem (mem_outs.mpr ⟨he₀, rfl⟩))
    obtain ⟨e, he, hrow⟩ := List.mem_map.mp hmem
    obtain ⟨hview, htarget⟩ := Prod.mk.inj hrow
    obtain ⟨hedge, hsource⟩ := mem_outs.mp he
    exact ⟨e, hedge, hview.symm ▸ hq, hsource, htarget⟩

/-- A kept step is an edge that is left, or none at all. -/
theorem stepWith_land {x y : Int} (hstep : KeptStep view q g g' land x y) :
    ReflTransGen (StepWith view q g') (land x) (land y) := by
  rcases hstep with ⟨hx, hstep⟩ | ⟨-, hland⟩
  · rw [h.fixed x hx]
    exact ReflTransGen.single ((h.stepWith_iff hx).mpr ⟨y, hstep, rfl⟩)
  · rw [hland]

variable (hfollows : ∀ x, ReflTransGen (g.Follows (Removed g g') land) x (land x))

include hfollows

theorem keptPath {u v : Int} (hu : u ∈ g'.live) (hstep : StepWith view q g' u v) :
    TransGen (KeptStep view q g g' land) u v := by
  obtain ⟨y, hy, rfl⟩ := (h.stepWith_iff hu).mp hstep
  have hrest : ReflTransGen (KeptStep view q g g' land) y (land y) :=
    ReflTransGen.mono (fun _ _ hpass => Or.inr hpass) y _ (hfollows y)
  exact TransGen.head' (Or.inl ⟨hu, hy⟩) hrest

/-- Paths of what is left are the kept paths between vertices that are left. -/
theorem transGen_iff (hlive : ∀ e ∈ g'.edges, e.source ∈ g'.live) {u v : Int} (hu : u ∈ g'.live)
    (hv : v ∈ g'.live) :
    TransGen (StepWith view q g') u v ↔ TransGen (KeptStep view q g g' land) u v := by
  constructor
  · intro hpath
    refine TransGen.trans_induction_on hpath ?_ fun _ _ hab hbc => hab.trans hbc
    intro a b hstep
    have ha : a ∈ g'.live := by
      obtain ⟨e, he, -, rfl, -⟩ := hstep
      exact hlive e he
    exact h.keptPath hfollows ha hstep
  · intro hpath
    -- the first step leaves a vertex that is left, so it is an edge there
    obtain ⟨y, hstep, hrest⟩ := TransGen.head'_iff.mp hpath
    rcases hstep with ⟨-, hstep⟩ | ⟨⟨hgone, -⟩, -⟩
    · have hland : ReflTransGen (StepWith view q g') (land y) (land v) :=
        hrest.lift' land fun a b => h.stepWith_land
      rw [h.fixed v hv] at hland
      exact TransGen.head' ((h.stepWith_iff hu).mpr ⟨y, hstep, rfl⟩) hland
    · exact absurd hu hgone.2

end Paths

/-- If removed vertices have one edge each, what is left is connected as before. -/
theorem reflTransGen_iff (h : Contraction view g g' land) (hg : g.WellFormed) (hg' : g'.WellFormed)
    (hone : ∀ x, Removed g g' x → ∃ e, g.outs x = [e]) {u v : Int} (hu : u ∈ g'.live)
    (hv : v ∈ g'.live) : ReflTransGen g'.Step u v ↔ ReflTransGen g.Step u v := by
  have hkept : ∀ x y, KeptStep view (fun _ => True) g g' land x y ↔ g.Step x y := by
    intro x y
    constructor
    · rintro (⟨-, hstep⟩ | ⟨⟨-, hstep⟩, -⟩)
      · exact (stepWith_true x y).mp hstep
      · exact hstep
    · intro hstep
      by_cases hx : x ∈ g'.live
      · exact Or.inl ⟨hx, (stepWith_true x y).mpr hstep⟩
      · have hlive : x ∈ g.live := by
          obtain ⟨e, he, rfl, -⟩ := hstep
          exact hg.source_live e he
        exact Or.inr (h.follows_of_passesOn hone ⟨⟨hlive, hx⟩, hstep⟩)
  have hpaths := h.transGen_iff (q := fun _ => True) (h.follows_of_single hone) hg'.source_live hu hv
  have hleft : StepWith view (fun _ => True) g' = g'.Step := by
    funext x y
    exact propext (stepWith_true x y)
  have hright : KeptStep view (fun _ => True) g g' land = g.Step := by
    funext x y
    exact propext (hkept x y)
  rw [hleft, hright] at hpaths
  rw [reflTransGen_iff_eq_or_transGen, reflTransGen_iff_eq_or_transGen, hpaths]

end Contraction

/-! ### Structuring without trailing code -/

section Structuring

variable {r : Routine} {t : Table} {stats : BuildStats}

theorem leavesForLabel_of_build (ht : t.JumpsEnd) (h : r.build t = .ok (g, stats))
    (htail : stats.tailEdges = 0) {v : Int} (hv : g.IsJump t v) : g.LeavesForLabel v := by
  obtain ⟨op, hop, hclass⟩ := hv
  rcases Routine.build_eq_ok h with ⟨hops, rfl, rfl⟩ | ⟨labels, w, hb⟩
  · exact ⟨Nat.zero_le _, fun e he => absurd he List.not_mem_nil⟩
  · exact hb.leavesForLabel ht htail hop hclass

theorem FirstPass.leavesForLabel (h : FirstPass t g g' land)
    (hjumps : ∀ v, g.IsJump t v → g.LeavesForLabel v) {v : Int} (hv : g'.IsJump t v) :
    g'.LeavesForLabel v := by
  have hlive : v ∈ g'.live := mem_live_of_op? hv.choose_spec.1
  have hold := hjumps v (h.within.isJump hv)
  refine ⟨?_, ?_⟩
  · have hlen := (h.contraction.outs v hlive).length_eq
    rw [List.length_map, List.length_map] at hlen
    rw [hlen]
    exact hold.few
  · intro e he
    obtain ⟨e₀, he₀, htarget⟩ := h.contraction.exists_mem_outs hlive he
    rw [← htarget]
    exact h.labels _ (hold.label e₀ he₀)

/-- A jump that structuring removes goes to a label, and structuring leads there what led to it. -/
theorem SecondPass.leave (h : SecondPass t g g' land)
    (hjumps : ∀ v, g.IsJump t v → g.LeavesForLabel v) {j : Int} (hj : Removed g g' j) :
    ∃ o, g.outs j = [o] ∧ land j = o.target ∧ g'.isLabel o.target = true := by
  obtain ⟨o, ho, hland⟩ := h.contraction.along j hj
  have hleaves := hjumps j (h.jumps j hj)
  obtain ⟨o', ho'⟩ := List.length_eq_one_iff.mp
    (Nat.le_antisymm hleaves.few (List.length_pos_of_mem ho))
  obtain ⟨hfixed, hlabel⟩ := h.labels _ (hleaves.label o ho)
  rw [ho', List.mem_singleton] at ho
  exact ⟨o, by rw [ho', ho], by rw [← hland, hfixed], hlabel⟩

/-- The jumps that `g'` does not have are passed by: each has one edge, to a label that is left, and
what led to it leads there. All other edges, levels and flags stay, and what is left is connected as
before. -/
structure PassesJumps (t : Table) (g g' : Graph) (land : Int → Int) : Prop where
  contraction : Contraction Attrs.flow g g' land
  jumps : ∀ j, Removed g g' j → g.IsJump t j
  leave : ∀ j, Removed g g' j →
    ∃ o, g.outs j = [o] ∧ land j = o.target ∧ g'.isLabel o.target = true
  connected : ∀ u ∈ g'.live, ∀ v ∈ g'.live, (ReflTransGen g'.Step u v ↔ ReflTransGen g.Step u v)

/-- Where jumps end the flow and there is no trailing code, structuring branches keeps the flow of
control, with the jump chains collapsed before or not. -/
theorem structureBranches_keeps_flow (ht : t.JumpsEnd) (h : r.build t = .ok (g, stats))
    (htail : stats.tailEdges = 0) (p : Passes)
    (hfault : ((g.collapsed t p).structureBranches t).fault = none) :
    ∃ land, PassesJumps t (g.collapsed t p) ((g.collapsed t p).structureBranches t).graph land := by
  obtain ⟨land₁, hfirst⟩ := exists_firstPass h p
  obtain ⟨land, hsecond⟩ := exists_secondPass hfirst.wellFormed hfault
  have hjumps : ∀ v, (g.collapsed t p).IsJump t v → (g.collapsed t p).LeavesForLabel v :=
    fun v hv => hfirst.leavesForLabel (fun _ => leavesForLabel_of_build ht h htail) hv
  refine ⟨land, hsecond.contraction, hsecond.jumps, fun j hj => hsecond.leave hjumps hj, ?_⟩
  intro u hu v hv
  refine hsecond.contraction.reflTransGen_iff hfirst.wellFormed hsecond.wellFormed ?_ hu hv
  intro j hj
  obtain ⟨o, ho, -⟩ := hsecond.leave hjumps hj
  exact ⟨o, ho⟩

theorem jumpsEnd_default : Table.default.JumpsEnd := by
  intro name hname
  have hjump : name = "Jump" := by
    simpa [Table.isJump, Table.default, Table.withIndex, NameSet.contains, NameSet.ofList,
      Table.jumps, List.eraseDups_cons] using hname
  rw [hjump]
  decide

/-- A branch with two arms; the first ends in a jump over the second. -/
def twoArms : Routine :=
  { id := 1
    ops :=
      [.labelJump { code := { name := "BranchValue" } } ⟨1, 1⟩,
        .plain { code := { name := "Message" } },
        .labelJump { code := { name := "Jump" } } ⟨1, 2⟩, .label 1,
        .plain { code := { name := "Message" } }, .label 2,
        .plain { code := { name := "Return" } }] }

theorem twoArms_keeps_flow :
    ∃ g stats, twoArms.build .default = .ok (g, stats) ∧ stats.tailEdges = 0 ∧
      ((g.collapsed .default {}).structureBranches .default).fault = none ∧
      ((g.collapsed .default {}).structureBranches .default).graph.live = [0, 1, 3, 4, 5, 6] ∧
      ∃ land, PassesJumps .default (g.collapsed .default {})
        ((g.collapsed .default {}).structureBranches .default).graph land :=
  ⟨_, _, rfl, rfl, rfl, rfl,
    structureBranches_keeps_flow (r := twoArms) jumpsEnd_default rfl rfl {} rfl⟩

end Structuring

end FlowRecovery.Graph

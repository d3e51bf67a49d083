import FlowRecovery.Proofs.Reduce.Moving
import Mathlib.Logic.Relation

/-! Contracting a graph. When vertices are removed, every vertex comes to one that is left: a removed
one by passing on along its edges through removed vertices, every other at once. The edges of a vertex
that is left lead where their targets come to, and nothing else changes. Contractions compose, and a
scan that has moved the edges away from the vertices that it deletes in the end makes one. -/

namespace FlowRecovery.Graph

open Relation

variable {α : Type} {view : Attrs → α} {g g' g'' : Graph}

/-- A vertex of `g` that `g'` does not have. -/
def Removed (g g' : Graph) (x : Int) : Prop := x ∈ g.live ∧ x ∉ g'.live

/-- An edge leads from `x` to `y`, and `x` is `gone`. -/
def PassesOn (g : Graph) (gone : Int → Prop) (x y : Int) : Prop := gone x ∧ g.Step x y

theorem PassesOn.mono {gone gone' : Int → Prop} (h : ∀ x, gone x → gone' x) {x y : Int}
    (hpath : ReflTransGen (g.PassesOn gone) x y) : ReflTransGen (g.PassesOn gone') x y :=
  ReflTransGen.mono (fun a _ hstep => ⟨h a hstep.1, hstep.2⟩) x y hpath

/-- An edge leads from `x`, which is `gone`, to a vertex that comes to where `x` does. -/
def Follows (g : Graph) (gone : Int → Prop) (land : Int → Int) (x y : Int) : Prop :=
  g.PassesOn gone x y ∧ land y = land x

/-- A path for one more move. -/
theorem path_lead_concat {R R' : Int → Int → Prop} {ms : List (Int × Int)} {a b : Int}
    (hgrow : ∀ x y, R x y → R' x y) (h : ∀ x, ReflTransGen R x (lead ms x))
    (hab : ReflTransGen R' a b) (x : Int) : ReflTransGen R' x (lead (ms ++ [(a, b)]) x) := by
  have hold := ReflTransGen.mono hgrow x _ (h x)
  rw [lead_concat]
  split_ifs with hx
  · rw [hx] at hold
    exact hold.trans hab
  · exact hold

/-- The graph `g'` is `g` without some vertices, and `land x` is the vertex that `x` comes to. -/
structure Contraction (view : Attrs → α) (g g' : Graph) (land : Int → Int) : Prop where
  live_sub : ∀ x ∈ g'.live, x ∈ g.live
  fixed : ∀ x ∈ g'.live, land x = x
  lands : ∀ x ∈ g.live, land x ∈ g'.live
  along : ∀ x, Removed g g' x → ∃ e ∈ g.outs x, land e.target = land x
  path : ∀ x, ReflTransGen (g.PassesOn (Removed g g')) x (land x)
  outs : ∀ u ∈ g'.live, ((g'.outs u).map fun e => (view e.attrs, e.target)).Perm
    ((g.outs u).map fun e => (view e.attrs, land e.target))

namespace Contraction

variable {land land' : Int → Int}

theorem refl (g : Graph) : Contraction view g g id where
  live_sub _ hx := hx
  fixed _ _ := rfl
  lands _ hx := hx
  along _ hx := absurd hx.1 hx.2
  path _ := ReflTransGen.refl
  outs _ _ := List.Perm.refl _

/-- An edge that is left was an edge to a vertex that comes to its target. -/
theorem exists_mem_outs (h : Contraction view g g' land) {u : Int} (hu : u ∈ g'.live) {e : Edge}
    (he : e ∈ g'.outs u) : ∃ e₀ ∈ g.outs u, land e₀.target = e.target := by
  have hmem := (h.outs u hu).subset (List.mem_map_of_mem he)
  obtain ⟨e₀, he₀, hrow⟩ := List.mem_map.mp hmem
  exact ⟨e₀, he₀, (Prod.mk.inj hrow).2⟩

theorem removed_mono (h : Contraction view g' g'' land) {x : Int} (hx : Removed g g' x) :
    Removed g g'' x :=
  ⟨hx.1, fun hlive => hx.2 (h.live_sub x hlive)⟩

/-- A path through the vertices that a second contraction removes was one in the first graph. -/
theorem path_trans (h : Contraction view g g' land) (h' : Contraction view g' g'' land') {x y : Int}
    (hpath : ReflTransGen (g'.PassesOn (Removed g' g'')) x y) :
    ReflTransGen (g.PassesOn (Removed g g'')) x y := by
  induction hpath with
  | refl => exact ReflTransGen.refl
  | tail _ hstep ih =>
    obtain ⟨⟨hlive, hgone⟩, e, he, rfl, rfl⟩ := hstep
    obtain ⟨e₀, he₀, hland⟩ := h.exists_mem_outs hlive (mem_outs.mpr ⟨he, rfl⟩)
    obtain ⟨hedge, hsource⟩ := mem_outs.mp he₀
    have hpass : g.PassesOn (Removed g g'') e.source e₀.target :=
      ⟨⟨h.live_sub _ hlive, hgone⟩, e₀, hedge, hsource, rfl⟩
    refine (ih.tail hpass).trans ?_
    rw [← hland]
    exact PassesOn.mono (fun _ => h'.removed_mono) (h.path _)

theorem trans (h : Contraction view g g' land) (h' : Contraction view g' g'' land') :
    Contraction view g g'' (land' ∘ land) where
  live_sub x hx := h.live_sub x (h'.live_sub x hx)
  fixed x hx := by
    rw [Function.comp_apply, h.fixed x (h'.live_sub x hx), h'.fixed x hx]
  lands x hx := h'.lands _ (h.lands x hx)
  along x hx := by
    by_cases hlive : x ∈ g'.live
    · obtain ⟨e, he, hland⟩ := h'.along x ⟨hlive, hx.2⟩
      obtain ⟨e₀, he₀, htarget⟩ := h.exists_mem_outs hlive he
      refine ⟨e₀, he₀, ?_⟩
      rw [Function.comp_apply, Function.comp_apply, htarget, hland, h.fixed x hlive]
    · obtain ⟨e, he, hland⟩ := h.along x ⟨hx.1, hlive⟩
      exact ⟨e, he, congrArg land' hland⟩
  path x := by
    have hfirst := PassesOn.mono (fun _ => h'.removed_mono) (h.path x)
    exact hfirst.trans (h.path_trans h' (h'.path (land x)))
  outs u hu := by
    have hfirst := (h.outs u (h'.live_sub u hu)).map fun p : α × Int => (p.1, land' p.2)
    rw [List.map_map, List.map_map] at hfirst
    exact (h'.outs u hu).trans hfirst

/-- Seeing less of the attributes. -/
theorem mono {β : Type} (sight : α → β) (h : Contraction view g g' land) :
    Contraction (sight ∘ view) g g' land where
  live_sub := h.live_sub
  fixed := h.fixed
  lands := h.lands
  along := h.along
  path := h.path
  outs u hu := by
    have hseen := (h.outs u hu).map fun p : α × Int => (sight p.1, p.2)
    rw [List.map_map, List.map_map] at hseen
    exact hseen

end Contraction

/-! ### Deleting vertices that edges have been led away from -/

section Delete

variable {dead : List Int} {gm : Graph} {f land : Int → Int}

/-- Nothing but the listed vertices is removed. -/
theorem mem_of_removed (hlive : gm.live = g.live) {x : Int}
    (hx : Removed g (gm.deleteVertices dead).1 x) : x ∈ dead := by
  by_contra hne
  exact hx.2 (mem_live_deleteVertices.mpr ⟨hlive ▸ hx.1, hne⟩)

theorem length_ins_deleteVertices_le (v : Int) :
    ((g.deleteVertices dead).1.ins v).length ≤ (g.ins v).length := by
  unfold ins deleteVertices
  exact ((List.filter_sublist (l := g.edges)).filter _).length_le

theorem outs_deleteVertices {u : Int} (hu : u ∉ dead) (hout : ∀ e ∈ g.outs u, e.target ∉ dead) :
    (g.deleteVertices dead).1.outs u = g.outs u := by
  unfold outs deleteVertices
  rw [List.filter_filter]
  refine List.filter_congr ?_
  intro e he
  by_cases hsource : e.source = u
  · have htarget := hout e (mem_outs.mpr ⟨he, hsource⟩)
    simp [hsource, hu, htarget]
  · simp [hsource]

theorem contraction_deleteVertices (hg : g.WellFormed) (hlive : gm.live = g.live)
    (hmoved : Moved view f g gm) (hfixed : ∀ x, x ∉ dead → land x = x)
    (hlands : ∀ x ∈ g.live, land x ∈ g.live ∧ land x ∉ dead)
    (halong : ∀ x ∈ dead, ∃ e ∈ g.outs x, land e.target = land x)
    (hpath : ∀ x, ReflTransGen (g.PassesOn (· ∈ dead)) x (land x))
    (hout : ∀ e ∈ g.edges, e.source ∉ dead → f e.target = land e.target) :
    Contraction view g (gm.deleteVertices dead).1 land := by
  have hmem : ∀ x, x ∈ (gm.deleteVertices dead).1.live ↔ x ∈ g.live ∧ x ∉ dead := by
    intro x
    rw [mem_live_deleteVertices, hlive]
  refine ⟨?_, ?_, ?_, ?_, ?_, ?_⟩
  · intro x hx
    exact ((hmem x).mp hx).1
  · intro x hx
    exact hfixed x ((hmem x).mp hx).2
  · intro x hx
    exact (hmem _).mpr (hlands x hx)
  · intro x hx
    exact halong x (mem_of_removed hlive hx)
  · intro x
    refine ReflTransGen.mono ?_ x _ (hpath x)
    rintro a b ⟨ha, e, he, rfl, rfl⟩
    exact ⟨⟨hg.source_live e he, fun hleft => ((hmem _).mp hleft).2 ha⟩, e, he, rfl, rfl⟩
  · intro u hu
    have hleft : u ∉ dead := ((hmem u).mp hu).2
    have hkept : (gm.deleteVertices dead).1.outs u = gm.outs u := by
      refine outs_deleteVertices hleft ?_
      intro e he
      obtain ⟨hedge, hsource⟩ := mem_outs.mp he
      obtain ⟨e₀, he₀, hfrom, -, htarget⟩ := hmoved.mem_of_mem hedge
      rw [← htarget, hout e₀ he₀ (by rw [hfrom, hsource]; exact hleft)]
      exact (hlands _ (hg.target_live e₀ he₀)).2
    have hled : ((g.outs u).map fun e => (view e.attrs, f e.target)) =
        (g.outs u).map fun e => (view e.attrs, land e.target) := by
      refine List.map_congr_left ?_
      intro e he
      obtain ⟨hedge, hsource⟩ := mem_outs.mp he
      rw [hout e hedge (hsource ▸ hleft)]
    rw [hkept, ← hled]
    exact hmoved.outs u

end Delete

end FlowRecovery.Graph

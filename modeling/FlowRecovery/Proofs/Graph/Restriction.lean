import FlowRecovery.Proofs.Graph.Calls

/-! Deleting vertices from the tables of a graph. Vertices are gone through in no particular order, and each one
takes the edges at it along, also those whose other end has its turn before or after it. All orders lead to
the same tables, entry by entry: what is left are the vertices that are not listed and the edges between them,
in the order in which they were. So vertices can as well be deleted one list after the other. -/

namespace FlowRecovery.Graph.Tables

open Std (ExtTreeMap LawfulEqCmp)

variable {t t' t₁ t₂ : Tables} {g : Graph} {ids more dead dead' : List Int}

/-! ### Entries -/

/-- Both tables of edges at vertices have the entries of `t`, but none for the vertices in `dead`. -/
structure Entries (t t' : Tables) (dead : List Int) : Prop where
  outIds : ∀ v, v ∈ t'.outIds ↔ v ∈ t.outIds ∧ v ∉ dead
  inIds : ∀ v, v ∈ t'.inIds ↔ v ∈ t.inIds ∧ v ∉ dead

theorem Entries.refl (t : Tables) : t.Entries t [] := ⟨by simp, by simp⟩

theorem Entries.trans (h : t.Entries t₁ dead) (h' : t₁.Entries t₂ dead') : t.Entries t₂ (dead ++ dead') where
  outIds v := by rw [h'.outIds, h.outIds, List.mem_append, not_or, and_assoc]
  inIds v := by rw [h'.inIds, h.inIds, List.mem_append, not_or, and_assoc]

namespace Lists

variable {m m' : ExtTreeMap Int (List Int)} {ends : Edge → Int} {es : List Edge}

/-- A vertex with an edge has an entry. -/
theorem mem (h : Lists m ends es) {e : Edge} (he : e ∈ es) : ends e ∈ m := by
  by_contra hnot
  have hlisted : (e.id : Int) ∈ m.getD (ends e) [] := by
    rw [h]
    exact List.mem_map.mpr ⟨e, List.mem_filter.mpr ⟨he, by simp⟩, rfl⟩
  rw [ExtTreeMap.getD_eq_fallback hnot] at hlisted
  exact List.not_mem_nil hlisted

/-- Only whether a vertex without edges has an entry is left open. -/
theorem eq_of_mem_iff (h : Lists m ends es) (h' : Lists m' ends es) (hmem : ∀ v, v ∈ m ↔ v ∈ m') :
    m = m' := by
  refine ExtTreeMap.ext_getElem? fun v => ?_
  by_cases hv : v ∈ m
  · have hget : m[v]? = some (m.getD v []) := ExtTreeMap.getElem?_eq_some_getD hv
    have hget' : m'[v]? = some (m'.getD v []) := ExtTreeMap.getElem?_eq_some_getD ((hmem v).mp hv)
    rw [hget, hget', h v, h' v]
  · rw [ExtTreeMap.getElem?_eq_none hv, ExtTreeMap.getElem?_eq_none ((hmem v).not.mp hv)]

end Lists

theorem mem_insert_of_mem {m : ExtTreeMap Int (List Int)} {k : Int} (hk : k ∈ m) (l : List Int) (v : Int) :
    v ∈ m.insert k l ↔ v ∈ m ∧ v ∉ ([] : List Int) := by
  rw [ExtTreeMap.mem_insert, LawfulEqCmp.compare_eq_iff_eq, and_iff_left List.not_mem_nil, or_iff_right_iff_imp]
  rintro rfl
  exact hk

theorem mem_erase_singleton {m : ExtTreeMap Int (List Int)} {k v : Int} :
    v ∈ m.erase k ↔ v ∈ m ∧ v ∉ [k] := by
  rw [ExtTreeMap.mem_erase, ne_eq, LawfulEqCmp.compare_eq_iff_eq, List.mem_singleton, and_comm, eq_comm]

/-- Tables that represent one graph and have the same entries are the same. -/
theorem Represents.eq_of_entries (h₁ : t₁.Represents g) (h₂ : t₂.Represents g) (he₁ : t.Entries t₁ dead)
    (he₂ : t.Entries t₂ dead') (hdead : ∀ v, v ∈ dead ↔ v ∈ dead') : t₁ = t₂ := by
  have horder : t₁.order = t₂.order := h₁.order_eq.trans h₂.order_eq.symm
  have hvertices : t₁.vertices = t₂.vertices :=
    ExtTreeMap.ext_getElem? fun v => (h₁.vertices_eq v).trans (h₂.vertices_eq v).symm
  have hedges : t₁.edges = t₂.edges :=
    ExtTreeMap.ext_getElem? fun id => Option.ext fun e => (h₁.edges_iff id e).trans (h₂.edges_iff id e).symm
  have hout : t₁.outIds = t₂.outIds :=
    h₁.outIds.eq_of_mem_iff h₂.outIds fun v => by rw [he₁.outIds, he₂.outIds, hdead]
  have hin : t₁.inIds = t₂.inIds :=
    h₁.inIds.eq_of_mem_iff h₂.inIds fun v => by rw [he₁.inIds, he₂.inIds, hdead]
  have hnext : t₁.nextEdge = t₂.nextEdge := h₁.nextEdge_eq.trans h₂.nextEdge_eq.symm
  cases t₁
  cases t₂
  simp only [Tables.mk.injEq]
  exact ⟨horder, hvertices, hedges, hout, hin, hnext⟩

namespace Matches

variable (h : t.Matches g)

include h

/-- The ends of an edge that is removed had entries, and keep them. -/
theorem entries_removeEdge (id : Int) : t.Entries (t.removeEdge id) [] := by
  unfold Tables.removeEdge
  cases hfound : t.edges[id]? with
  | none => exact .refl t
  | some e =>
    have he := ((h.edges_iff id e).mp hfound).1
    exact ⟨mem_insert_of_mem (h.outIds.mem he) _, mem_insert_of_mem (h.inIds.mem he) _⟩

theorem entries_removeEdges (ids : List Int) : t.Entries (ids.foldl Tables.removeEdge t) [] := by
  induction ids generalizing t g with
  | nil => exact .refl t
  | cons id ids ih => exact (h.entries_removeEdge id).trans (ih (h.removeEdge id))

theorem entries_deleteVertex (v : Int) : t.Entries (t.deleteVertex v) [v] := by
  have hout := h.removeEdges (fun e => e.source = v) (h.outIds v)
  have hkept := (h.entries_removeEdges (t.leaving v)).trans
    (hout.entries_removeEdges (((t.leaving v).foldl Tables.removeEdge t).entering v))
  exact hkept.trans ⟨fun _ => mem_erase_singleton, fun _ => mem_erase_singleton⟩

theorem entries_deleteVertices (vs : List Int) : t.Entries (vs.foldl Tables.deleteVertex t) vs := by
  induction vs generalizing t g with
  | nil => exact .refl t
  | cons v vs ih => exact (h.entries_deleteVertex v).trans (ih (h.deleteVertex v))

end Matches

/-! ### Deletions -/

/-- What deleting the vertices among `ids` can lead to, and how many of them it deletes. -/
def Deletes (t : Tables) (ids : List Int) (t' : Tables) (n : Nat) : Prop :=
  ∃ doomed, t.Dooms ids doomed ∧ t' = t.deleteVertices doomed ∧ n = doomed.length

theorem deletes_dedup (t : Tables) (ids : List Int) :
    t.Deletes ids (t.deleteVertices (ids.dedup.filter (t.vertices.contains ·)))
      (ids.dedup.filter (t.vertices.contains ·)).length :=
  ⟨_, t.dooms_dedup ids, rfl, rfl⟩

namespace Represents

variable {n n₁ n₂ : Nat} (h : t.Represents g)

include h

theorem deletes (hd : t.Deletes ids t' n) :
    t'.Represents (g.deleteVertices ids).1 ∧ n = (g.deleteVertices ids).2 := by
  obtain ⟨doomed, hdoomed, rfl, rfl⟩ := hd
  exact h.deleteVertices hdoomed

theorem entries_deleteVertices (doomed : List Int) : t.Entries (t.deleteVertices doomed) doomed := by
  obtain ⟨hout, hin⟩ := h.toMatches.entries_deleteVertices doomed
  exact ⟨hout, hin⟩

/-- The order does not matter. -/
theorem deletes_unique (h₁ : t.Deletes ids t₁ n₁) (h₂ : t.Deletes ids t₂ n₂) : t₁ = t₂ ∧ n₁ = n₂ := by
  obtain ⟨hrep₁, hcount₁⟩ := h.deletes h₁
  obtain ⟨hrep₂, hcount₂⟩ := h.deletes h₂
  obtain ⟨doomed₁, hdoomed₁, rfl, -⟩ := h₁
  obtain ⟨doomed₂, hdoomed₂, rfl, -⟩ := h₂
  refine ⟨hrep₁.eq_of_entries hrep₂ (h.entries_deleteVertices doomed₁) (h.entries_deleteVertices doomed₂) ?_,
    hcount₁.trans hcount₂.symm⟩
  intro v
  rw [hdoomed₁.mem_iff, hdoomed₂.mem_iff]

theorem dooms_append {doomed₁ doomed₂ : List Int} (h₁ : t.Dooms ids doomed₁)
    (h₂ : (t.deleteVertices doomed₁).Dooms more doomed₂) : t.Dooms (ids ++ more) (doomed₁ ++ doomed₂) := by
  have hleft : ∀ v, v ∈ (t.deleteVertices doomed₁).vertices ↔ v ∈ t.vertices ∧ v ∉ ids := by
    intro v
    rw [(h.deleteVertices h₁).1.mem_vertices, mem_live_deleteVertices, h.mem_vertices]
  refine ⟨List.nodup_append.mpr ⟨h₁.nodup, h₂.nodup, ?_⟩, fun v => ?_⟩
  · intro v hv w hw heq
    have hkept := ((hleft w).mp ((h₂.mem_iff w).mp hw).2).2
    exact hkept (heq ▸ ((h₁.mem_iff v).mp hv).1)
  · rw [List.mem_append, h₁.mem_iff, h₂.mem_iff, hleft, List.mem_append]
    tauto

/-- Two deletions are one. -/
theorem deletes_append (h₁ : t.Deletes ids t₁ n₁) (h₂ : t₁.Deletes more t₂ n₂) :
    t.Deletes (ids ++ more) t₂ (n₁ + n₂) := by
  have hrep₁ := (h.deletes h₁).1
  have hrep₂ := (hrep₁.deletes h₂).1
  rw [← deleteVertices_append] at hrep₂
  obtain ⟨doomed₁, hdoomed₁, rfl, rfl⟩ := h₁
  obtain ⟨doomed₂, hdoomed₂, rfl, rfl⟩ := h₂
  have hdoomed := h.dooms_append hdoomed₁ hdoomed₂
  refine ⟨doomed₁ ++ doomed₂, hdoomed, ?_, List.length_append.symm⟩
  -- the two ways go through the order of the vertices at different times, so the tables are compared at the end
  exact hrep₂.eq_of_entries (h.deleteVertices hdoomed).1
    ((h.entries_deleteVertices doomed₁).trans (hrep₁.entries_deleteVertices doomed₂))
    (h.entries_deleteVertices (doomed₁ ++ doomed₂)) fun _ => Iff.rfl

end Represents

/-! ### What is left -/

/-- Both ends of the edge are vertices. -/
def joins (t : Tables) (e : Edge) : Bool := t.vertices.contains e.source && t.vertices.contains e.target

/-- The tables are those of `t` without the vertices `ids`: all edges that still have both ends are there, as
they were and in the same order at each vertex, and no others. -/
structure Restricts (t' t : Tables) (ids : List Int) : Prop where
  order_eq : t'.order = t.order.filter (· ∉ ids)
  vertices_eq : ∀ v, t'.vertices[v]? = if v ∈ ids then none else t.vertices[v]?
  edges_eq : ∀ id : Int, t'.edges[id]? = t.edges[id]?.filter t'.joins
  outs_eq : ∀ v, t'.outs? v = (t.outs? v).map (List.filter t'.joins)
  ins_eq : ∀ v, t'.ins? v = (t.ins? v).map (List.filter t'.joins)
  nextEdge_eq : t'.nextEdge = t.nextEdge

theorem Represents.restricts (h : t.Represents g) (h' : t'.Represents (g.deleteVertices ids).1) :
    t'.Restricts t ids := by
  have hjoins : ∀ e ∈ g.edges, t'.joins e = (!ids.contains e.source && !ids.contains e.target) := by
    intro e he
    have hends := And.intro (h.wellFormed.source_live e he) (h.wellFormed.target_live e he)
    rw [joins, h'.contains_vertices, h'.contains_vertices, Bool.eq_iff_iff]
    simp [mem_live_deleteVertices, hends]
  have hfilter : ∀ p : Edge → Bool,
      (g.deleteVertices ids).1.edges.filter p = (g.edges.filter p).filter t'.joins := by
    intro p
    rw [List.filter_congr fun e he => hjoins e (List.mem_of_mem_filter he), List.filter_comm]
    rfl
  refine ⟨?_, fun v => ?_, fun id => ?_, fun v => ?_, fun v => ?_, ?_⟩
  · rw [h'.order_eq, h.order_eq]
    exact List.filter_congr fun v _ => by simp
  · rw [h'.vertices_eq, h.vertices_eq, vertex?_deleteVertices]
  · refine Option.ext fun e => ?_
    rw [h'.edges_iff, Option.filter_eq_some_iff, h.edges_iff, and_right_comm]
    refine and_congr_left fun _ => ?_
    rw [← List.mem_filter, ← List.filter_true g.edges, ← hfilter, List.filter_true]
  · rw [h'.outs?_eq, h.outs?_eq, Option.map_some]
    exact congrArg some (hfilter _)
  · rw [h'.ins?_eq, h.ins?_eq, Option.map_some]
    exact congrArg some (hfilter _)
  · exact h'.nextEdge_eq.trans h.nextEdge_eq.symm

/-- Deleting vertices from the tables of a graph, whatever numbers are listed and in whatever order they are
gone through, comes to one result: the tables without these vertices, and the number of different vertices
among the numbers. It is what the graph itself comes to. Deleting two lists one after the other is deleting
both at once. -/
theorem deletes_restricts (h : t.Represents g) (ids : List Int) :
    ∃ t' n, t.Deletes ids t' n ∧ (∀ t'' n', t.Deletes ids t'' n' → t'' = t' ∧ n' = n) ∧
      t'.Restricts t ids ∧ n = (ids.dedup.filter (t.vertices.contains ·)).length ∧
      t'.Represents (g.deleteVertices ids).1 ∧ n = (g.deleteVertices ids).2 ∧
      ∀ more, (g.deleteVertices (ids ++ more)).1 = ((g.deleteVertices ids).1.deleteVertices more).1 ∧
        ∀ t₂ n₂, t'.Deletes more t₂ n₂ ↔ t.Deletes (ids ++ more) t₂ (n + n₂) := by
  have hdeletes := t.deletes_dedup ids
  obtain ⟨hrep, hcount⟩ := h.deletes hdeletes
  refine ⟨_, _, hdeletes, fun t'' n' h' => h.deletes_unique h' hdeletes, h.restricts hrep, rfl, hrep, hcount,
    fun more => ⟨deleteVertices_append ids more, fun t₂ n₂ => ⟨h.deletes_append hdeletes, fun hall => ?_⟩⟩⟩
  have hmore := deletes_dedup (t.deleteVertices (ids.dedup.filter (t.vertices.contains ·))) more
  obtain ⟨rfl, hsum⟩ := h.deletes_unique hall (h.deletes_append hdeletes hmore)
  obtain rfl := Nat.add_left_cancel hsum
  exact hmore

/-- Edges side by side, from a vertex to itself and between two vertices that are both deleted. -/
def tangledCalls : List Call :=
  [.addEdge 0 1 {}, .addEdge 0 1 { level := 1 }, .addEdge 1 1 { loop := true }, .addEdge 1 2 {}, .addEdge 2 1 {},
    .addEdge 2 3 {}, .addEdge 0 3 {}, .addEdge 3 0 { loop := true }]

theorem tangledCalls_deletes_restricts :
    ∃ (t : Tables) (g : Graph), t.Represents g ∧ g.edgeCount = 8 ∧
      ∃ t' : Tables, t.Deletes [2, 1, 9, 2] t' 2 ∧
        (∀ t'' n, t.Deletes [2, 1, 9, 2] t'' n → t'' = t' ∧ n = 2) ∧
        t'.Restricts t [2, 1, 9, 2] ∧ t'.order = [0, 3] ∧
        t'.edgesBySource? = some [⟨6, 0, 3, {}⟩, ⟨7, 3, 0, { loop := true }⟩] := by
  obtain ⟨t, ht⟩ := exists_built (List.replicate 4 (.label 0)) tangledCalls
  obtain ⟨t', n, hdeletes, hunique, hrestricts, -, hrep, hcount, -⟩ :=
    deletes_restricts ht.represents [2, 1, 9, 2]
  obtain rfl : n = 2 := hcount.trans (by decide)
  exact ⟨t, _, ht.represents, by decide, t', hdeletes, hunique, hrestricts, hrep.order_eq.trans (by decide),
    hrep.readsAs.edgesBySource_eq.trans (by decide)⟩

end FlowRecovery.Graph.Tables

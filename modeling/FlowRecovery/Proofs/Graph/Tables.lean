import FlowRecovery.Proofs.Graph.WellFormed
import Mathlib.Tactic.SplitIfs
import Std.Data.ExtTreeMap

/-! Graphs in tables. A graph that is worked on is kept in five tables: the vertices in their order, the
vertices and the edges by their numbers, and for each vertex the numbers of the edges that leave and that
enter it. A change touches several of them, entry by entry; deleting vertices goes through them one after
the other, in no particular order. The tables represent a graph if each entry is what the graph says. -/

namespace FlowRecovery

open Std (ExtTreeMap LawfulEqCmp)

structure Graph.Tables where
  /-- The vertices in their order. -/
  order : List Int
  vertices : ExtTreeMap Int Vertex
  edges : ExtTreeMap Int Edge
  /-- The edges that leave a vertex; a vertex may have no entry. -/
  outIds : ExtTreeMap Int (List Int)
  inIds : ExtTreeMap Int (List Int)
  nextEdge : Nat

namespace Graph.Tables

/-! ### Changes -/

/-- The vertices for the operations from position `n` on. -/
def place (m : ExtTreeMap Int Vertex) (n : Nat) : List Operation → ExtTreeMap Int Vertex
  | [] => m
  | op :: rest => place (m.insert n ⟨n, op⟩) (n + 1) rest

def ofOps (ops : List Operation) : Tables :=
  { order := (List.range ops.length).map Int.ofNat
    vertices := place ∅ 0 ops
    edges := ∅
    outIds := ∅
    inIds := ∅
    nextEdge := 0 }

def leaving (t : Tables) (v : Int) : List Int := t.outIds.getD v []

def entering (t : Tables) (v : Int) : List Int := t.inIds.getD v []

def addEdge (t : Tables) (source target : Int) (attrs : Attrs) : Except Fault (Tables × Edge) :=
  if !t.vertices.contains source then .error (.plain "unknown source vertex")
  else if !t.vertices.contains target then .error (.plain "unknown target vertex")
  else
    let e : Edge := { id := t.nextEdge, source, target, attrs }
    .ok ({ t with
        edges := t.edges.insert e.id e
        outIds := t.outIds.insert source (t.leaving source ++ [(e.id : Int)])
        inIds := t.inIds.insert target (t.entering target ++ [(e.id : Int)])
        nextEdge := t.nextEdge + 1 }, e)

/-- Numbers that no edge has are ignored. -/
def removeEdge (t : Tables) (id : Int) : Tables :=
  match t.edges[id]? with
  | none => t
  | some e =>
    { t with
      edges := t.edges.erase id
      outIds := t.outIds.insert e.source ((t.leaving e.source).filter (· ≠ id))
      inIds := t.inIds.insert e.target ((t.entering e.target).filter (· ≠ id)) }

/-- Deletes a vertex with the edges at it from all tables but the order. The edges that enter it are looked
up once those that leave it are gone. -/
def deleteVertex (t : Tables) (v : Int) : Tables :=
  let t := (t.leaving v).foldl removeEdge t
  let t := (t.entering v).foldl removeEdge t
  { t with
    vertices := t.vertices.erase v
    outIds := t.outIds.erase v
    inIds := t.inIds.erase v }

/-- Deletes vertices one after the other, and then from the order. -/
def deleteVertices (t : Tables) (doomed : List Int) : Tables :=
  let t := doomed.foldl deleteVertex t
  { t with order := t.order.filter (!doomed.contains ·) }

/-! ### Representation -/

/-- Each vertex has the numbers of the edges that end there, in their order; `ends` says which end counts. -/
def Lists (m : ExtTreeMap Int (List Int)) (ends : Edge → Int) (es : List Edge) : Prop :=
  ∀ v, m.getD v [] = (es.filter (ends · = v)).map fun e => (e.id : Int)

/-- Each entry is what the graph says, the order of the vertices apart. -/
structure Matches (t : Tables) (g : Graph) : Prop where
  wellFormed : g.WellFormed
  vertices_eq : ∀ v, t.vertices[v]? = g.vertex? v
  edges_iff : ∀ (id : Int) (e : Edge), t.edges[id]? = some e ↔ e ∈ g.edges ∧ (e.id : Int) = id
  outIds : Lists t.outIds Edge.source g.edges
  inIds : Lists t.inIds Edge.target g.edges
  nextEdge_eq : t.nextEdge = g.nextEdge

structure Represents (t : Tables) (g : Graph) : Prop extends Matches t g where
  order_eq : t.order = g.live

variable {t : Tables} {g : Graph}

/-! ### The edges at a vertex -/

namespace Lists

variable {m : ExtTreeMap Int (List Int)} {ends : Edge → Int} {es : List Edge} (h : Lists m ends es)

include h

theorem insert (e : Edge) :
    Lists (m.insert (ends e) (m.getD (ends e) [] ++ [(e.id : Int)])) ends (es ++ [e]) := by
  intro v
  rw [ExtTreeMap.getD_insert, List.filter_append, List.map_append, ← h v]
  simp only [LawfulEqCmp.compare_eq_iff_eq]
  by_cases hv : ends e = v
  · simp [hv]
  · simp [hv]

theorem remove {e : Edge} (hsame : ∀ f ∈ es, (f.id : Int) = e.id → f = e) :
    Lists (m.insert (ends e) ((m.getD (ends e) []).filter (· ≠ (e.id : Int)))) ends
      (es.filter fun f => (f.id : Int) ≠ e.id) := by
  have hkept : ∀ v, (m.getD v []).filter (· ≠ (e.id : Int)) =
      ((es.filter fun f => (f.id : Int) ≠ e.id).filter (ends · = v)).map fun f => (f.id : Int) := by
    intro v
    rw [h v, List.filter_map, List.filter_filter, List.filter_filter]
    simp only [Bool.and_comm, Function.comp_def]
  intro v
  rw [ExtTreeMap.getD_insert, ← hkept]
  simp only [LawfulEqCmp.compare_eq_iff_eq]
  by_cases hv : ends e = v
  · rw [if_pos hv, hv]
  · have hother : ∀ i ∈ m.getD v [], i ≠ e.id := by
      rintro i hi rfl
      rw [h v] at hi
      obtain ⟨f, hf, hid⟩ := List.mem_map.mp hi
      obtain ⟨hmem, hend⟩ := List.mem_filter.mp hf
      exact hv (hsame f hmem hid ▸ of_decide_eq_true hend)
    rw [if_neg hv]
    exact (List.filter_eq_self.mpr fun i hi => by simpa using hother i hi).symm

theorem erase {v : Int} (hgone : ∀ e ∈ es, ends e ≠ v) : Lists (m.erase v) ends es := by
  intro u
  rw [ExtTreeMap.getD_erase]
  simp only [LawfulEqCmp.compare_eq_iff_eq]
  by_cases hu : v = u
  · rw [if_pos hu, List.filter_eq_nil_iff.mpr fun e he => by simpa [← hu] using hgone e he]
    rfl
  · rw [if_neg hu, h u]

end Lists

/-! ### New tables -/

theorem getElem?_place (m : ExtTreeMap Int Vertex) (n : Nat) (ops : List Operation) (v : Int) :
    (place m n ops)[v]? =
      if n ≤ v ∧ v < n + ops.length then ops[(v - n).toNat]?.map (⟨v, ·⟩) else m[v]? := by
  induction ops generalizing m n with
  | nil => rw [place, if_neg (by simp)]
  | cons op rest ih =>
    rw [place, ih, ExtTreeMap.getElem?_insert, List.length_cons]
    rcases Int.lt_trichotomy v n with hlt | rfl | hgt
    · rw [if_neg (by omega), if_neg (by simp; omega), if_neg (by omega)]
    · rw [if_neg (by omega), if_pos (by simp), if_pos (by omega), Int.sub_self]
      rfl
    · have hnext : (v - n).toNat = (v - (n + 1 : Nat)).toNat + 1 := by omega
      rw [hnext, List.getElem?_cons_succ]
      by_cases hinside : v < (n + 1 : Nat) + rest.length
      · rw [if_pos (by omega), if_pos (by omega)]
      · rw [if_neg (by omega), if_neg (by simp; omega), if_neg (by omega)]

theorem represents_ofOps (ops : List Operation) : (Tables.ofOps ops).Represents (Graph.ofOps ops) where
  wellFormed := .ofOps ops
  vertices_eq v := by
    have hlive : v ∈ (Graph.ofOps ops).live ↔ (0 : Nat) ≤ v ∧ v < (0 : Nat) + ops.length := by
      constructor
      · intro hv
        have hinside := (WellFormed.ofOps ops).live_inside v hv
        simp only [Graph.ofOps] at hinside
        omega
      · rintro ⟨hnonneg, hlt⟩
        exact List.mem_map.mpr ⟨v.toNat, List.mem_range.mpr (by omega), Int.toNat_of_nonneg hnonneg⟩
    rw [Tables.ofOps, getElem?_place, vertex?]
    by_cases hv : v ∈ (Graph.ofOps ops).live
    · rw [if_pos (hlive.mp hv), op?, if_pos (has_iff.mpr hv), Int.natCast_zero, Int.sub_zero]
      rfl
    · rw [if_neg (hlive.not.mp hv), op?_of_not_mem hv, ExtTreeMap.getElem?_empty]
      rfl
  edges_iff id e := by simp [Tables.ofOps, Graph.ofOps]
  outIds v := by simp [Tables.ofOps, Graph.ofOps]
  inIds v := by simp [Tables.ofOps, Graph.ofOps]
  nextEdge_eq := rfl
  order_eq := rfl

/-! ### Drawing an edge -/

namespace Matches

variable (h : t.Matches g)

include h

theorem contains_vertices (v : Int) : t.vertices.contains v = g.has v := by
  rw [ExtTreeMap.contains_eq_isSome_getElem?, h.vertices_eq, vertex?, Option.isSome_map]
  by_cases hv : v ∈ g.live
  · obtain ⟨op, hop⟩ := exists_op? h.wellFormed hv
    rw [hop, has_iff.mpr hv]
    rfl
  · rw [op?_of_not_mem hv, has_eq_false hv]
    rfl

/-- The tables with one edge more. -/
theorem link {source target : Int} (hs : source ∈ g.live) (ht : target ∈ g.live) (attrs : Attrs) :
    Matches
      { t with
        edges := t.edges.insert g.nextEdge ⟨g.nextEdge, source, target, attrs⟩
        outIds := t.outIds.insert source (t.leaving source ++ [(g.nextEdge : Int)])
        inIds := t.inIds.insert target (t.entering target ++ [(g.nextEdge : Int)])
        nextEdge := g.nextEdge + 1 }
      (g.link source target attrs) where
  wellFormed := h.wellFormed.link source target attrs
  vertices_eq v := by simp [h.vertices_eq, vertex?, op?, has]
  edges_iff id e := by
    simp only [ExtTreeMap.getElem?_insert, LawfulEqCmp.compare_eq_iff_eq]
    rw [edges_link hs ht, List.mem_append, List.mem_singleton]
    by_cases hid : (g.nextEdge : Int) = id
    · subst hid
      rw [if_pos rfl]
      constructor
      · rintro ⟨⟩
        exact ⟨Or.inr rfl, rfl⟩
      · rintro ⟨he | rfl, hid⟩
        · exact absurd (h.wellFormed.ids_below e he) (by omega)
        · rfl
    · rw [if_neg hid, h.edges_iff]
      constructor
      · rintro ⟨he, rfl⟩
        exact ⟨Or.inl he, rfl⟩
      · rintro ⟨he | rfl, rfl⟩
        · exact ⟨he, rfl⟩
        · exact absurd rfl hid
  outIds := by
    rw [edges_link hs ht]
    exact h.outIds.insert ⟨g.nextEdge, source, target, attrs⟩
  inIds := by
    rw [edges_link hs ht]
    exact h.inIds.insert ⟨g.nextEdge, source, target, attrs⟩
  nextEdge_eq := (nextEdge_link hs ht attrs).symm

/-- Drawing an edge is refused for the same reason, or draws the same edge. -/
theorem addEdge (source target : Int) (attrs : Attrs) :
    (∃ f, t.addEdge source target attrs = .error f ∧ g.addEdge source target attrs = .error f) ∨
      ∃ t' g' e, t.addEdge source target attrs = .ok (t', e) ∧
        g.addEdge source target attrs = .ok (g', e) ∧ t'.Matches g' ∧ t'.order = t.order := by
  unfold Tables.addEdge
  rw [h.contains_vertices, h.contains_vertices]
  cases hs : g.has source with
  | false => exact Or.inl ⟨_, rfl, by simp [Graph.addEdge, hs]⟩
  | true => cases ht : g.has target with
    | false => exact Or.inl ⟨_, rfl, by simp [Graph.addEdge, hs, ht]⟩
    | true =>
      refine Or.inr ⟨_, g.link source target attrs, _, rfl, ?_, ?_, rfl⟩
      · simp [Graph.addEdge, hs, ht, link_of_has hs ht, h.nextEdge_eq]
      · rw [h.nextEdge_eq]
        exact h.link (has_iff.mp hs) (has_iff.mp ht) attrs

end Matches

/-! ### Removing edges -/

@[simp] theorem order_removeEdge (id : Int) : (t.removeEdge id).order = t.order := by
  unfold removeEdge
  split <;> rfl

@[simp] theorem order_foldl_removeEdge (ids : List Int) : (ids.foldl removeEdge t).order = t.order := by
  induction ids generalizing t with
  | nil => rfl
  | cons id ids ih => rw [List.foldl_cons, ih, order_removeEdge]

/-- The graph with only the edges that satisfy `p`. -/
def keepEdges (g : Graph) (p : Edge → Bool) : Graph := { g with edges := g.edges.filter p }

theorem keepEdges_congr {p q : Edge → Bool} (h : ∀ e ∈ g.edges, p e = q e) :
    keepEdges g p = keepEdges g q := by
  rw [keepEdges, keepEdges, List.filter_congr h]

theorem keepEdges_true {p : Edge → Bool} (h : ∀ e ∈ g.edges, p e = true) : keepEdges g p = g := by
  rw [keepEdges, List.filter_eq_self.mpr h]

namespace Matches

variable (h : t.Matches g)

include h

theorem removeEdge (id : Int) :
    (t.removeEdge id).Matches (keepEdges g fun e => (e.id : Int) ≠ id) := by
  unfold Tables.removeEdge
  cases hfound : t.edges[id]? with
  | none =>
    rw [keepEdges_true]
    · exact h
    · intro e he
      refine decide_eq_true fun hid => ?_
      rw [(h.edges_iff id e).mpr ⟨he, hid⟩] at hfound
      simp at hfound
  | some e =>
    obtain ⟨he, rfl⟩ := (h.edges_iff id e).mp hfound
    have hsame : ∀ f ∈ g.edges, (f.id : Int) = e.id → f = e := fun f hf hid =>
      h.wellFormed.eq_of_id_eq hf he (Int.ofNat_inj.mp hid)
    refine ⟨h.wellFormed.filterEdges _, h.vertices_eq, fun i f => ?_, h.outIds.remove hsame,
      h.inIds.remove hsame, h.nextEdge_eq⟩
    simp only [ExtTreeMap.getElem?_erase, LawfulEqCmp.compare_eq_iff_eq, keepEdges, List.mem_filter,
      decide_eq_true_eq]
    by_cases hi : (e.id : Int) = i
    · rw [if_pos hi]
      constructor
      · rintro ⟨⟩
      · rintro ⟨⟨-, hne⟩, hid⟩
        exact absurd (hid.trans hi.symm) hne
    · rw [if_neg hi, h.edges_iff]
      constructor
      · rintro ⟨hf, rfl⟩
        exact ⟨⟨hf, fun hid => hi hid.symm⟩, rfl⟩
      · rintro ⟨⟨hf, -⟩, hid⟩
        exact ⟨hf, hid⟩

/-- Removing the edges that satisfy `q`, one after the other, keeps the others. -/
theorem removeEdges (q : Edge → Bool) {ids : List Int}
    (hids : ids = (g.edges.filter q).map fun e => (e.id : Int)) :
    (ids.foldl Tables.removeEdge t).Matches (keepEdges g fun e => !q e) := by
  have hall : (ids.foldl Tables.removeEdge t).Matches (keepEdges g fun e => !ids.contains (e.id : Int)) := by
    clear hids
    induction ids generalizing t g with
    | nil =>
      rw [keepEdges_true (by simp)]
      exact h
    | cons id ids ih =>
      have hrest := ih (h.removeEdge id)
      rw [keepEdges, keepEdges, List.filter_filter] at hrest
      simpa [keepEdges, Bool.and_comm] using hrest
  rw [keepEdges_congr] at hall
  · exact hall
  · intro e he
    rw [hids, Bool.not_inj_iff, Bool.eq_iff_iff, List.contains_iff_mem, List.mem_map]
    constructor
    · rintro ⟨f, hf, hid⟩
      obtain ⟨hmem, hq⟩ := List.mem_filter.mp hf
      exact h.wellFormed.eq_of_id_eq hmem he (Int.ofNat_inj.mp hid) ▸ hq
    · intro hq
      exact ⟨e, List.mem_filter.mpr ⟨he, hq⟩, rfl⟩

end Matches

/-! ### Deleting vertices -/

@[simp] theorem order_deleteVertex (v : Int) : (t.deleteVertex v).order = t.order := by
  simp [deleteVertex]

/-- Vertices that are deleted one after the other are deleted together. -/
theorem deleteVertices_append (ids more : List Int) :
    (g.deleteVertices (ids ++ more)).1 = ((g.deleteVertices ids).1.deleteVertices more).1 := by
  have hcontains : ∀ x : Int, (!(ids ++ more).contains x) = (!more.contains x && !ids.contains x) := by
    intro x
    rw [List.contains_append, Bool.not_or, Bool.and_comm]
  simp only [Graph.deleteVertices, List.filter_filter, hcontains]
  congr 2
  funext e
  ac_rfl

/-- Once the edges at a vertex are gone, so may the vertex be. -/
theorem Matches.erase {v : Int} (hg : g.WellFormed)
    (h : t.Matches (keepEdges g fun e => !decide (e.target = v) && !decide (e.source = v))) :
    Matches { t with vertices := t.vertices.erase v, outIds := t.outIds.erase v, inIds := t.inIds.erase v }
      (g.deleteVertices [v]).1 := by
  have hdeleted := hg.deleteVertices [v]
  have hedges : (keepEdges g fun e => !decide (e.target = v) && !decide (e.source = v)).edges =
      (g.deleteVertices [v]).1.edges := by
    refine List.filter_congr fun e _ => ?_
    simp [Bool.and_comm]
  have hgone : v ∉ (g.deleteVertices [v]).1.live := by simp [mem_live_deleteVertices]
  refine ⟨hdeleted, fun u => ?_, ?_, ?_, ?_, h.nextEdge_eq⟩
  · simp only [ExtTreeMap.getElem?_erase, LawfulEqCmp.compare_eq_iff_eq]
    rw [vertex?_deleteVertices, h.vertices_eq]
    simp only [List.mem_singleton, eq_comm (a := u)]
    rfl
  · rw [← hedges]
    exact h.edges_iff
  · refine Lists.erase ?_ fun e he hv => hgone (hv ▸ hdeleted.source_live e he)
    rw [← hedges]
    exact h.outIds
  · refine Lists.erase ?_ fun e he hv => hgone (hv ▸ hdeleted.target_live e he)
    rw [← hedges]
    exact h.inIds

theorem Matches.deleteVertex (h : t.Matches g) (v : Int) :
    (t.deleteVertex v).Matches (g.deleteVertices [v]).1 := by
  have hout := h.removeEdges (fun e => e.source = v) (h.outIds v)
  have hin := hout.removeEdges (fun e => e.target = v) (hout.inIds v)
  rw [keepEdges, keepEdges, List.filter_filter] at hin
  exact hin.erase h.wellFormed

theorem Matches.foldl_deleteVertex (h : t.Matches g) (vs : List Int) :
    (vs.foldl Tables.deleteVertex t).Matches (g.deleteVertices vs).1 ∧
      (vs.foldl Tables.deleteVertex t).order = t.order := by
  induction vs generalizing t g with
  | nil =>
    refine ⟨?_, rfl⟩
    have hsame : (g.deleteVertices []).1 = g := by simp [Graph.deleteVertices]
    rw [hsame]
    exact h
  | cons v vs ih =>
    rw [← List.singleton_append, deleteVertices_append, List.singleton_append, List.foldl_cons]
    obtain ⟨hrest, horder⟩ := ih (h.deleteVertex v)
    exact ⟨hrest, horder.trans (order_deleteVertex v)⟩

/-- Only the vertices among the listed ones matter. -/
theorem deleteVertices_congr (hg : g.WellFormed) {ids ids' : List Int}
    (h : ∀ v ∈ g.live, v ∈ ids ↔ v ∈ ids') : g.deleteVertices ids = g.deleteVertices ids' := by
  have hcontains : ∀ v ∈ g.live, ids.contains v = ids'.contains v := by
    intro v hv
    rw [Bool.eq_iff_iff, List.contains_iff_mem, List.contains_iff_mem]
    exact h v hv
  have hlive : g.live.filter (!ids.contains ·) = g.live.filter (!ids'.contains ·) :=
    List.filter_congr fun v hv => by rw [hcontains v hv]
  have hcount : g.live.filter (ids.contains ·) = g.live.filter (ids'.contains ·) :=
    List.filter_congr fun v hv => hcontains v hv
  have hedges : g.edges.filter (fun e => !ids.contains e.source && !ids.contains e.target) =
      g.edges.filter (fun e => !ids'.contains e.source && !ids'.contains e.target) :=
    List.filter_congr fun e he => by
      rw [hcontains e.source (hg.source_live e he), hcontains e.target (hg.target_live e he)]
  rw [Graph.deleteVertices, Graph.deleteVertices, hlive, hcount, hedges]

/-- The vertices among `ids`, each of them once, in any order. -/
structure Dooms (t : Tables) (ids doomed : List Int) : Prop where
  nodup : doomed.Nodup
  mem_iff : ∀ v, v ∈ doomed ↔ v ∈ ids ∧ v ∈ t.vertices

theorem Matches.mem_vertices (h : t.Matches g) {v : Int} : v ∈ t.vertices ↔ v ∈ g.live := by
  rw [← ExtTreeMap.contains_iff_mem, h.contains_vertices, has_iff]

namespace Represents

variable {ids doomed : List Int}

/-- Deleting vertices comes out the same in every order, and counts each vertex once. -/
theorem deleteVertices (h : t.Represents g) (hdoomed : t.Dooms ids doomed) :
    (t.deleteVertices doomed).Represents (g.deleteVertices ids).1 ∧
      doomed.length = (g.deleteVertices ids).2 := by
  have hmem : ∀ v ∈ g.live, v ∈ ids ↔ v ∈ doomed := by
    intro v hv
    rw [hdoomed.mem_iff, h.mem_vertices]
    exact ⟨fun hid => ⟨hid, hv⟩, fun hid => hid.1⟩
  obtain ⟨hmatches, horder⟩ := h.toMatches.foldl_deleteVertex doomed
  rw [deleteVertices_congr h.wellFormed hmem]
  refine ⟨⟨⟨hmatches.wellFormed, hmatches.vertices_eq, hmatches.edges_iff, hmatches.outIds,
    hmatches.inIds, hmatches.nextEdge_eq⟩, ?_⟩, ?_⟩
  · change List.filter _ (doomed.foldl Tables.deleteVertex t).order = _
    rw [horder, h.order_eq]
    rfl
  · have hperm : doomed.Perm (g.live.filter (doomed.contains ·)) := by
      rw [List.perm_ext_iff_of_nodup hdoomed.nodup (h.wellFormed.live_nodup.filter _)]
      intro v
      rw [List.mem_filter, List.contains_iff_mem, ← h.mem_vertices, hdoomed.mem_iff]
      tauto
    exact hperm.length_eq

end Represents

end Graph.Tables

end FlowRecovery

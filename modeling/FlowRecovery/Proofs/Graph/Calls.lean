import FlowRecovery.Proofs.Graph.Tables
import Mathlib.Algebra.GroupWithZero.Nat
import Mathlib.Data.List.Dedup
import Mathlib.Data.List.Induction

/-! What can be read from the tables of a graph. After any calls that change a graph the tables are in
step: the order lists the vertices, the edges at a vertex are found by their numbers in the order in which
they were drawn, the number of edges is the sum of the degrees, and the place of a vertex is found by binary
search. What is read is what the graph says that has taken the same calls, in whatever order the vertices of
each deletion were gone through. -/

namespace FlowRecovery.Graph

open Std (ExtTreeMap)

/-! ### Reading -/

namespace Tables

/-- The edges with the given numbers, unless one of them is missing. -/
def resolve? (t : Tables) (ids : List Int) : Option (List Edge) := ids.mapM (t.edges[·]?)

def outs? (t : Tables) (v : Int) : Option (List Edge) := t.resolve? (t.leaving v)

def ins? (t : Tables) (v : Int) : Option (List Edge) := t.resolve? (t.entering v)

def outDegree (t : Tables) (v : Int) : Nat := (t.leaving v).length

def inDegree (t : Tables) (v : Int) : Nat := (t.entering v).length

/-- All edges, grouped by the vertex they leave. -/
def edgesBySource? (t : Tables) : Option (List Edge) := (t.order.mapM t.outs?).map List.flatten

def edgeCount (t : Tables) : Nat := t.edges.size

/-- The vertex at a place in the order of vertices. -/
def at? (t : Tables) (i : Int) : Option Vertex :=
  if 0 ≤ i then t.order[i.toNat]?.bind (t.vertices[·]?) else none

end Tables

/-- The first place from `lo` up to `hi` whose entry is not below `x`, by halving. -/
def lowerBound (xs : List Int) (x : Int) (lo hi : Nat) : Nat :=
  if lo < hi then
    let mid := (lo + hi) / 2
    if xs[mid]?.any (· < x) then lowerBound xs x (mid + 1) hi else lowerBound xs x lo mid
  else lo
termination_by hi - lo

namespace Tables

/-- The place of a vertex in the order of vertices, or -1. -/
def index (t : Tables) (id : Int) : Int :=
  let i := lowerBound t.order id 0 t.order.length
  if t.order[i]? = some id then i else -1

end Tables

/-! ### Binary search -/

section Sorted

variable {xs : List Int} {x : Int} (hsorted : xs.Pairwise (· < ·))

include hsorted

theorem le_of_sorted {i j : Nat} {a b : Int} (ha : xs[i]? = some a) (hb : xs[j]? = some b) (hij : i ≤ j) :
    a ≤ b := by
  obtain ⟨hi, rfl⟩ := List.getElem?_eq_some_iff.mp ha
  obtain ⟨hj, rfl⟩ := List.getElem?_eq_some_iff.mp hb
  rcases Nat.eq_or_lt_of_le hij with rfl | hlt
  · exact Int.le_refl _
  · exact Int.le_of_lt (List.pairwise_iff_getElem.mp hsorted i j hi hj hlt)

/-- Entries in front of the place are below `x`, and the others are not. -/
theorem lowerBound_spec {lo hi : Nat} (hlohi : lo ≤ hi) (hhi : hi ≤ xs.length)
    (hbelow : ∀ j y, xs[j]? = some y → j < lo → y < x)
    (habove : ∀ j y, xs[j]? = some y → hi ≤ j → x ≤ y) :
    ∀ j y, xs[j]? = some y → (j < lowerBound xs x lo hi ↔ y < x) := by
  fun_induction lowerBound xs x lo hi with
  | case1 lo hi hlt mid hmid ih =>
    obtain ⟨z, hz, hzx⟩ := (Option.any_eq_true _ _).mp hmid
    refine ih (by omega) hhi (fun j y hy hj => ?_) habove
    have hyz := le_of_sorted hsorted hy hz (by omega)
    have hzx := of_decide_eq_true hzx
    omega
  | case2 lo hi hlt mid hmid ih =>
    refine ih (by omega) (by omega) hbelow fun j y hy hj => ?_
    have hz : xs[mid]? = some xs[mid] := List.getElem?_eq_getElem (by omega)
    have hzy := le_of_sorted hsorted hz hy hj
    simp only [hz, Option.any_some, decide_eq_true_eq] at hmid
    omega
  | case3 lo hi hnot =>
    intro j y hy
    have := hbelow j y hy
    have := habove j y hy
    omega

/-- The place that halving finds is the only one where `x` can stand. -/
theorem getElem?_iff_lowerBound (i : Nat) :
    xs[i]? = some x ↔ i = lowerBound xs x 0 xs.length ∧ xs[lowerBound xs x 0 xs.length]? = some x := by
  have hspec := lowerBound_spec (x := x) hsorted (Nat.zero_le _) (Nat.le_refl _)
    (fun j y _ hj => absurd hj (Nat.not_lt_zero j))
    (fun j y hy hj => absurd (List.getElem?_eq_some_iff.mp hy).1 (Nat.not_lt.mpr hj))
  generalize lowerBound xs x 0 xs.length = k at hspec ⊢
  constructor
  · intro hi
    obtain ⟨hlen, hx⟩ := List.getElem?_eq_some_iff.mp hi
    have hle : k ≤ i := Nat.not_lt.mp fun hlt => Int.lt_irrefl x ((hspec i x hi).mp hlt)
    have heq : i = k := by
      by_contra hne
      have hk : k < xs.length := by omega
      have hlt := List.pairwise_iff_getElem.mp hsorted k i hk hlen (by omega)
      exact Nat.lt_irrefl k ((hspec k xs[k] (List.getElem?_eq_getElem hk)).mpr (hx ▸ hlt))
    exact ⟨heq, heq ▸ hi⟩
  · rintro ⟨rfl, hi⟩
    exact hi

end Sorted

/-! ### Counting edges -/

/-- Each edge has one end of each kind, so it is counted at one vertex. -/
theorem perm_flatMap_ends {g : Graph} (hg : g.WellFormed) {ends : Edge → Int}
    (hends : ∀ e ∈ g.edges, ends e ∈ g.live) :
    (g.live.flatMap fun v => g.edges.filter (ends · = v)).Perm g.edges := by
  rw [List.perm_ext_iff_of_nodup _ hg.edges_nodup]
  · intro e
    rw [List.mem_flatMap]
    constructor
    · rintro ⟨v, -, he⟩
      exact List.mem_of_mem_filter he
    · intro he
      exact ⟨ends e, hends e he, List.mem_filter.mpr ⟨he, by simp⟩⟩
  · refine List.nodup_flatMap.mpr
      ⟨fun v _ => hg.edges_nodup.filter _, hg.live_nodup.imp fun hne e ha hb => hne ?_⟩
    rw [List.mem_filter, decide_eq_true_eq] at ha hb
    exact ha.2.symm.trans hb.2

theorem length_edges_eq_sum {g : Graph} (hg : g.WellFormed) {ends : Edge → Int}
    (hends : ∀ e ∈ g.edges, ends e ∈ g.live) :
    g.edges.length = (g.live.map fun v => (g.edges.filter (ends · = v)).length).sum := by
  rw [← (perm_flatMap_ends hg hends).length_eq, List.length_flatMap]

/-! ### What is read -/

theorem mapM_of_forall {α β : Type} {f : α → Option β} {f' : α → β} {l : List α}
    (h : ∀ a ∈ l, f a = some (f' a)) : l.mapM f = some (l.map f') := by
  induction l with
  | nil => rfl
  | cons a l ih =>
    rw [List.mapM_cons, h a (List.mem_cons_self ..), ih fun b hb => h b (List.mem_cons_of_mem a hb)]
    rfl

theorem exists_vertex? {g : Graph} (hg : g.WellFormed) {v : Int} (hv : v ∈ g.live) :
    ∃ op, g.vertex? v = some ⟨v, op⟩ := by
  obtain ⟨op, hop⟩ := exists_op? hg hv
  exact ⟨op, by rw [vertex?, hop]; rfl⟩

namespace Tables

variable {t : Tables} {g : Graph}

/-- The place of a vertex is where it stands in the order; vertices that are not there have none. -/
theorem index_spec (hsorted : t.order.Pairwise (· < ·)) (id : Int) :
    (∃ i : Nat, t.index id = i ∧ t.order[i]? = some id) ∨ t.index id = -1 ∧ id ∉ t.order := by
  unfold index
  simp only
  split_ifs with hplace
  · exact Or.inl ⟨_, rfl, hplace⟩
  · refine Or.inr ⟨rfl, fun hid => ?_⟩
    obtain ⟨i, hi⟩ := List.mem_iff_getElem?.mp hid
    exact hplace ((getElem?_iff_lowerBound hsorted i).mp hi).2

/-- What can be read from the tables is what the graph says. -/
structure ReadsAs (t : Tables) (g : Graph) : Prop where
  order_eq : t.order = g.live
  vertices_eq : ∀ v, t.vertices[v]? = g.vertex? v
  outs_eq : ∀ v, t.outs? v = some (g.outs v)
  ins_eq : ∀ v, t.ins? v = some (g.ins v)
  outDegree_eq : ∀ v, t.outDegree v = g.outDegree v
  inDegree_eq : ∀ v, t.inDegree v = g.inDegree v
  edgesBySource_eq : t.edgesBySource? = some g.edgesBySource
  edgeCount_eq : t.edgeCount = g.edgeCount
  index_eq : ∀ id, t.index id = (g.index? id).elim (-1) Int.ofNat
  at_eq : ∀ i, t.at? i = g.at? i

namespace Represents

variable (h : t.Represents g)

include h

theorem leaving_eq (v : Int) : t.leaving v = (g.outs v).map fun e => (e.id : Int) := h.outIds v

theorem entering_eq (v : Int) : t.entering v = (g.ins v).map fun e => (e.id : Int) := h.inIds v

/-- The numbers of edges of the graph are found, whichever they are. -/
theorem resolve?_eq {es : List Edge} (hes : ∀ e ∈ es, e ∈ g.edges) :
    t.resolve? (es.map fun e => (e.id : Int)) = some es := by
  have hfound : es.mapM (fun e => t.edges[(e.id : Int)]?) = some (es.map id) :=
    mapM_of_forall fun e he => (h.edges_iff _ e).mpr ⟨hes e he, rfl⟩
  rw [List.map_id] at hfound
  rw [resolve?, List.mapM_map]
  exact hfound

theorem outs?_eq (v : Int) : t.outs? v = some (g.outs v) := by
  rw [outs?, h.leaving_eq, h.resolve?_eq fun e he => (mem_outs.mp he).1]

theorem ins?_eq (v : Int) : t.ins? v = some (g.ins v) := by
  rw [ins?, h.entering_eq, h.resolve?_eq fun e he => (mem_ins.mp he).1]

theorem edgeCount_eq : t.edgeCount = g.edgeCount := by
  have hnodup : (g.edges.map fun e => (e.id : Int)).Nodup :=
    List.pairwise_map.mpr (h.wellFormed.ids_sorted.imp fun hab => by omega)
  have hkeys : t.edges.keys.Perm (g.edges.map fun e => (e.id : Int)) := by
    rw [List.perm_ext_iff_of_nodup ExtTreeMap.nodup_keys hnodup]
    intro id
    rw [ExtTreeMap.mem_keys, ExtTreeMap.mem_iff_isSome_getElem?, Option.isSome_iff_exists, List.mem_map]
    exact exists_congr fun e => h.edges_iff id e
  rw [edgeCount, ← ExtTreeMap.length_keys, hkeys.length_eq, List.length_map]
  rfl

theorem index_eq (id : Int) : t.index id = (g.index? id).elim (-1) Int.ofNat := by
  have hsorted : t.order.Pairwise (· < ·) := h.order_eq ▸ h.wellFormed.live_sorted
  rw [h.order_eq] at hsorted
  rcases index_spec (h.order_eq ▸ hsorted) id with ⟨i, hindex, hi⟩ | ⟨hindex, hid⟩
  · rw [h.order_eq] at hi
    obtain ⟨hlt, hplace⟩ := List.getElem?_eq_some_iff.mp hi
    have hfirst : g.index? id = some i := by
      refine List.idxOf?_eq_some_iff.mpr ⟨hlt, hplace, fun j hj heq => ?_⟩
      have hless := List.pairwise_iff_getElem.mp hsorted j i (by omega) hlt hj
      rw [heq, hplace] at hless
      exact Int.lt_irrefl id hless
    rw [hindex, hfirst]
    rfl
  · rw [h.order_eq] at hid
    rw [hindex, index?, List.idxOf?_eq_none_iff.mpr hid]
    rfl

theorem readsAs : t.ReadsAs g where
  order_eq := h.order_eq
  vertices_eq := h.vertices_eq
  outs_eq := h.outs?_eq
  ins_eq := h.ins?_eq
  outDegree_eq v := by rw [outDegree, h.leaving_eq, List.length_map]; rfl
  inDegree_eq v := by rw [inDegree, h.entering_eq, List.length_map]; rfl
  edgesBySource_eq := by
    rw [edgesBySource?, mapM_of_forall fun v _ => h.outs?_eq v, h.order_eq]
    rfl
  edgeCount_eq := h.edgeCount_eq
  index_eq := h.index_eq
  at_eq i := by
    unfold Tables.at? Graph.at?
    simp only [h.order_eq, h.vertices_eq]

end Represents

/-! ### Tables in step -/

/-- The tables agree with one another, and so does what is read from them. -/
structure InStep (t : Tables) : Prop where
  order_sorted : t.order.Pairwise (· < ·)
  mem_order_iff : ∀ v, v ∈ t.order ↔ v ∈ t.vertices
  vertex_id : ∀ (v : Int) x, t.vertices[v]? = some x → x.id = v
  edge_id : ∀ (id : Int) e, t.edges[id]? = some e → (e.id : Int) = id ∧ e.id < t.nextEdge
  edge_ends : ∀ (id : Int) e, t.edges[id]? = some e → e.source ∈ t.vertices ∧ e.target ∈ t.vertices
  outs : ∀ v, ∃ es, t.outs? v = some es ∧ es.Pairwise (·.id < ·.id) ∧
    ∀ e, e ∈ es ↔ t.edges[(e.id : Int)]? = some e ∧ e.source = v
  ins : ∀ v, ∃ es, t.ins? v = some es ∧ es.Pairwise (·.id < ·.id) ∧
    ∀ e, e ∈ es ↔ t.edges[(e.id : Int)]? = some e ∧ e.target = v
  edgesBySource : ∃ es, t.edgesBySource? = some es ∧
    es.Pairwise (fun a b => a.source < b.source ∨ a.source = b.source ∧ a.id < b.id) ∧
    ∀ e, e ∈ es ↔ t.edges[(e.id : Int)]? = some e
  edgeCount_outs : t.edgeCount = (t.order.map t.outDegree).sum
  edgeCount_ins : t.edgeCount = (t.order.map t.inDegree).sum
  index_iff : ∀ id i, i ≠ -1 → (t.index id = i ↔ (t.at? i).map (·.id) = some id)
  index_none : ∀ id, t.index id = -1 ↔ id ∉ t.vertices

namespace Represents

variable (h : t.Represents g)

include h

theorem mem_edges_iff (e : Edge) : t.edges[(e.id : Int)]? = some e ↔ e ∈ g.edges := by
  rw [h.edges_iff, and_iff_left rfl]

theorem map_id_at? (i : Int) :
    (t.at? i).map (·.id) = if 0 ≤ i then t.order[i.toNat]? else none := by
  unfold Tables.at?
  split_ifs
  · cases hplace : t.order[i.toNat]? with
    | none => rfl
    | some v =>
      obtain ⟨op, hop⟩ := exists_vertex? h.wellFormed (h.order_eq ▸ List.mem_of_getElem? hplace)
      rw [Option.bind_some, h.vertices_eq, hop]
      rfl
  · rfl

theorem inStep : t.InStep where
  order_sorted := h.order_eq ▸ h.wellFormed.live_sorted
  mem_order_iff v := by rw [h.mem_vertices, h.order_eq]
  vertex_id v x hx := by
    rw [h.vertices_eq] at hx
    obtain ⟨op, -, rfl⟩ := Option.map_eq_some_iff.mp hx
    rfl
  edge_id id e he := by
    obtain ⟨hmem, hid⟩ := (h.edges_iff id e).mp he
    exact ⟨hid, h.nextEdge_eq ▸ h.wellFormed.ids_below e hmem⟩
  edge_ends id e he := by
    have hmem := ((h.edges_iff id e).mp he).1
    exact ⟨h.mem_vertices.mpr (h.wellFormed.source_live e hmem),
      h.mem_vertices.mpr (h.wellFormed.target_live e hmem)⟩
  outs v := ⟨g.outs v, h.outs?_eq v, h.wellFormed.ids_sorted.filter _, fun e => by
    rw [mem_outs, h.mem_edges_iff]⟩
  ins v := ⟨g.ins v, h.ins?_eq v, h.wellFormed.ids_sorted.filter _, fun e => by
    rw [mem_ins, h.mem_edges_iff]⟩
  edgesBySource := by
    refine ⟨g.edgesBySource, h.readsAs.edgesBySource_eq, ?_, fun e => ?_⟩
    · refine List.pairwise_flatMap.mpr ⟨fun v _ => ?_, h.wellFormed.live_sorted.imp ?_⟩
      · refine List.Pairwise.imp_of_mem (fun ha hb hab => Or.inr ⟨?_, hab⟩) (h.wellFormed.ids_sorted.filter _)
        exact (mem_outs.mp ha).2.trans (mem_outs.mp hb).2.symm
      · intro u v huv a ha b hb
        rw [(mem_outs.mp ha).2, (mem_outs.mp hb).2]
        exact Or.inl huv
    · rw [h.mem_edges_iff]
      exact (perm_flatMap_ends h.wellFormed h.wellFormed.source_live).mem_iff
  edgeCount_outs := by
    rw [h.edgeCount_eq, h.order_eq, Graph.edgeCount, length_edges_eq_sum h.wellFormed h.wellFormed.source_live]
    exact congrArg List.sum (List.map_congr_left fun v _ => (h.readsAs.outDegree_eq v).symm)
  edgeCount_ins := by
    rw [h.edgeCount_eq, h.order_eq, Graph.edgeCount, length_edges_eq_sum h.wellFormed h.wellFormed.target_live]
    exact congrArg List.sum (List.map_congr_left fun v _ => (h.readsAs.inDegree_eq v).symm)
  index_iff id i hi := by
    rw [h.map_id_at?]
    have hsorted : t.order.Pairwise (· < ·) := h.order_eq ▸ h.wellFormed.live_sorted
    rcases index_spec hsorted id with ⟨k, hindex, hk⟩ | ⟨hindex, hid⟩
    · rw [hindex]
      constructor
      · rintro rfl
        exact hk
      · intro hplace
        split_ifs at hplace with hnonneg
        have hsame := ((getElem?_iff_lowerBound hsorted k).mp hk).1.trans
          ((getElem?_iff_lowerBound hsorted i.toNat).mp hplace).1.symm
        omega
    · rw [hindex]
      refine ⟨fun hminus => absurd hminus.symm hi, fun hplace => ?_⟩
      split_ifs at hplace
      exact absurd (List.mem_of_getElem? hplace) hid
  index_none id := by
    rw [h.mem_vertices, ← h.order_eq]
    rcases index_spec (h.order_eq ▸ h.wellFormed.live_sorted) id with ⟨k, hindex, hk⟩ | ⟨hindex, hid⟩
    · rw [hindex]
      exact ⟨fun hminus => by omega, fun hid => absurd (List.mem_of_getElem? hk) hid⟩
    · exact ⟨fun _ => hid, fun _ => hindex⟩

end Represents

end Tables

/-! ### Calls -/

/-- A call that changes a graph. -/
inductive Call where
  | addEdge (source target : Int) (attrs : Attrs)
  | removeEdge (id : Int)
  | deleteVertices (ids : List Int)

/-- What a graph becomes; no edge has a negative number. -/
def take (g : Graph) : Call → Graph
  | .addEdge source target attrs => g.link source target attrs
  | .removeEdge (.ofNat id) => g.removeEdge id
  | .removeEdge (.negSucc _) => g
  | .deleteVertices ids => (g.deleteVertices ids).1

namespace Tables

variable {t : Tables} {g : Graph}

/-- What tables can become. A deletion goes through the vertices in any order. -/
inductive Takes (t : Tables) : Call → Tables → Prop
  | drawn {source target : Int} {attrs : Attrs} {t' : Tables} {e : Edge}
      (h : t.addEdge source target attrs = .ok (t', e)) : Takes t (.addEdge source target attrs) t'
  | refused {source target : Int} {attrs : Attrs} {f : Fault}
      (h : t.addEdge source target attrs = .error f) : Takes t (.addEdge source target attrs) t
  | removed (id : Int) : Takes t (.removeEdge id) (t.removeEdge id)
  | deleted {ids doomed : List Int} (h : t.Dooms ids doomed) :
      Takes t (.deleteVertices ids) (t.deleteVertices doomed)

/-- What the tables for some operations can become by calls. -/
inductive Built (ops : List Operation) : List Call → Tables → Prop
  | new : Built ops [] (ofOps ops)
  | call {calls : List Call} {c : Call} {t t' : Tables} (h : Built ops calls t) (hc : t.Takes c t') :
      Built ops (calls ++ [c]) t'

/-- There is an order in which the vertices can be gone through. -/
theorem dooms_dedup (t : Tables) (ids : List Int) :
    t.Dooms ids (ids.dedup.filter (t.vertices.contains ·)) := by
  refine ⟨ids.nodup_dedup.filter _, fun v => ?_⟩
  rw [List.mem_filter, List.mem_dedup, ExtTreeMap.contains_iff_mem]

theorem exists_takes (t : Tables) (c : Call) : ∃ t', t.Takes c t' := by
  cases c with
  | addEdge source target attrs =>
    cases hdrawn : t.addEdge source target attrs with
    | ok x => exact ⟨x.1, .drawn (e := x.2) hdrawn⟩
    | error f => exact ⟨t, .refused hdrawn⟩
  | removeEdge id => exact ⟨_, .removed id⟩
  | deleteVertices ids => exact ⟨_, .deleted (t.dooms_dedup ids)⟩

theorem exists_built (ops : List Operation) (calls : List Call) : ∃ t, Built ops calls t := by
  induction calls using List.reverseRecOn with
  | nil => exact ⟨_, .new⟩
  | append_singleton calls c ih =>
    obtain ⟨t, ht⟩ := ih
    obtain ⟨t', ht'⟩ := t.exists_takes c
    exact ⟨t', .call ht ht'⟩

/-- A call keeps the tables a representation of the graph. -/
theorem Represents.takes {c : Call} {t' : Tables} (h : t.Represents g) (hc : t.Takes c t') :
    t'.Represents (g.take c) := by
  cases hc with
  | @drawn source target attrs t' e hdrawn =>
    rcases h.addEdge source target attrs with ⟨f, hf, -⟩ | ⟨t'', g', e', ht, hg, hmatches, horder⟩
    · rw [hdrawn] at hf
      simp at hf
    · obtain ⟨rfl, rfl⟩ := Prod.mk.inj (Except.ok.inj (hdrawn.symm.trans ht))
      obtain ⟨-, -, rfl⟩ := addEdge_eq_ok hg
      exact ⟨hmatches, by rw [horder, h.order_eq, take, live_link]⟩
  | @refused source target attrs f hrefused =>
    rcases h.addEdge source target attrs with ⟨f', -, hf⟩ | ⟨t', g', e, ht, -⟩
    · rw [take, link, hf]
      exact h
    · rw [hrefused] at ht
      simp at ht
  | removed id =>
    have hremoved := h.toMatches.removeEdge id
    have hkept : keepEdges g (fun e => (e.id : Int) ≠ id) = g.take (.removeEdge id) := by
      cases id with
      | ofNat n =>
        exact keepEdges_congr (q := fun e => e.id ≠ n) fun _ _ =>
          decide_eq_decide.mpr (not_congr Int.ofNat_inj)
      | negSucc n => exact keepEdges_true fun e _ => decide_eq_true (by omega)
    rw [hkept] at hremoved
    exact ⟨hremoved, by rw [order_removeEdge, h.order_eq]; cases id <;> rfl⟩
  | deleted hdoomed => exact (h.deleteVertices hdoomed).1

theorem Built.represents {ops : List Operation} {calls : List Call} (h : Built ops calls t) :
    t.Represents (calls.foldl take (.ofOps ops)) := by
  induction h with
  | new => exact represents_ofOps ops
  | call _ hc ih =>
    rw [List.foldl_append]
    exact ih.takes hc

/-- After any calls, whatever their arguments are and in whatever order vertices are deleted, the tables of
a graph are in step, and what is read from them is what the graph says that has taken the same calls. -/
theorem built_inStep (ops : List Operation) (calls : List Call) :
    (∃ t, Built ops calls t) ∧
      ∀ t, Built ops calls t → t.InStep ∧ t.ReadsAs (calls.foldl take (.ofOps ops)) :=
  ⟨exists_built ops calls, fun _ h => ⟨h.represents.inStep, h.represents.readsAs⟩⟩

/-- Two edges side by side, one from a vertex to itself, and vertices and edges that are not there. -/
def busyCalls : List Call :=
  [.addEdge 0 1 {}, .addEdge 0 1 { level := 1 }, .addEdge 1 1 { loop := true }, .addEdge 1 2 {},
    .addEdge 0 3 {}, .addEdge 9 0 {}, .addEdge 3 4 {}, .removeEdge 0, .removeEdge 42, .removeEdge (-1),
    .deleteVertices [2, 1, 2, 42], .addEdge 4 0 {}, .addEdge 0 1 {}]

theorem busyCalls_built_inStep :
    ∃ t, Built (List.replicate 5 (.label 0)) busyCalls t ∧ t.order = [0, 3, 4] ∧
      t.edgesBySource? = some [⟨4, 0, 3, {}⟩, ⟨5, 3, 4, {}⟩, ⟨6, 4, 0, {}⟩] ∧ t.InStep ∧
      t.ReadsAs (busyCalls.foldl take (.ofOps (List.replicate 5 (.label 0)))) := by
  obtain ⟨⟨t, ht⟩, hall⟩ := built_inStep (List.replicate 5 (.label 0)) busyCalls
  obtain ⟨hstep, hreads⟩ := hall t ht
  exact ⟨t, ht, hreads.order_eq.trans (by decide), hreads.edgesBySource_eq.trans (by decide), hstep, hreads⟩

end Tables

end FlowRecovery.Graph

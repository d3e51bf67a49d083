import FlowRecovery.Proofs.Graph.Calls
import FlowRecovery.Proofs.Graph.Reachable
import Mathlib.Logic.Function.Iterate

/-! Searching the tables of a graph for a way from one vertex to another. The search has no budget: it goes on,
round by round, until a vertex leads to the goal or none is waiting. In each round the vertex on top is taken
off, and its edges are looked up by their numbers one after the other. A round does what an expansion does in
the search of the graph, and no vertex waits twice, so the search comes to an end with the same answer. -/

namespace FlowRecovery.Graph

open Relation

/-- What is seen counts, not in which order. -/
theorem fresh_congr {seen seen' : List Int} (h : ∀ v, v ∈ seen ↔ v ∈ seen') (l : List Int) :
    fresh seen l = fresh seen' l := by
  induction l generalizing seen seen' with
  | nil => rfl
  | cons v rest ih =>
    have hcontains : seen.contains v = seen'.contains v := by
      rw [Bool.eq_iff_iff, List.contains_iff_mem, List.contains_iff_mem]
      exact h v
    have hcons : ∀ w, w ∈ v :: seen ↔ w ∈ v :: seen' := by
      intro w
      rw [List.mem_cons, List.mem_cons, h w]
    rw [fresh, fresh, hcontains, ih h, ih hcons]

namespace Tables

/-- There is an edge from `u` to `v`. -/
def Step (t : Tables) (u v : Int) : Prop :=
  ∃ (id : Int) (e : Edge), t.edges[id]? = some e ∧ e.source = u ∧ e.target = v

/-- How far a search is. -/
inductive Search where
  /-- Vertices wait to be expanded, and some have been seen. -/
  | ongoing (stack seen : List Int)
  | answered (found : Bool)
  /-- A number was listed that no edge has. -/
  | lost

/-- Goes through edges by their numbers: the search is over at the goal, and targets not seen before wait. -/
def scan (t : Tables) (goal : Int) : (ids stack seen : List Int) → Search
  | [], stack, seen => .ongoing stack seen
  | id :: ids, stack, seen =>
    match t.edges[id]? with
    | none => .lost
    | some e =>
      if e.target = goal then .answered true
      else if seen.contains e.target then t.scan goal ids stack seen
      else t.scan goal ids (e.target :: stack) (e.target :: seen)

def round (t : Tables) (goal : Int) : Search → Search
  | .ongoing [] _ => .answered false
  | .ongoing (v :: stack) seen => t.scan goal (t.leaving v) stack seen
  | .answered found => .answered found
  | .lost => .lost

def Search.start (source goal : Int) : Search :=
  if source = goal then .answered true else .ongoing [source] [source]

variable {t : Tables} {g : Graph}

namespace Represents

variable (h : t.Represents g)

include h

theorem step_iff {u v : Int} : t.Step u v ↔ g.Step u v := by
  constructor
  · rintro ⟨id, e, he, hends⟩
    exact ⟨e, ((h.edges_iff id e).mp he).1, hends⟩
  · rintro ⟨e, he, hends⟩
    exact ⟨e.id, e, (h.mem_edges_iff e).mpr he, hends⟩

theorem scan_eq (goal : Int) {es : List Edge} (hes : ∀ e ∈ es, e ∈ g.edges) (stack seen : List Int) :
    t.scan goal (es.map fun e => (e.id : Int)) stack seen =
      if (es.map (·.target)).contains goal then .answered true
      else .ongoing ((fresh seen (es.map (·.target))).reverse ++ stack)
        ((fresh seen (es.map (·.target))).reverse ++ seen) := by
  induction es generalizing stack seen with
  | nil => rfl
  | cons e es ih =>
    have hfound : t.edges[(e.id : Int)]? = some e := (h.mem_edges_iff e).mpr (hes e (List.mem_cons_self ..))
    have hrest := ih fun f hf => hes f (List.mem_cons_of_mem e hf)
    simp only [List.map_cons, scan, hfound, fresh, List.contains_cons]
    by_cases hgoal : e.target = goal
    · simp [hgoal]
    · by_cases hseen : e.target ∈ seen
      · simp [hgoal, Ne.symm hgoal, hseen, hrest]
      · simp [hgoal, Ne.symm hgoal, hseen, hrest]

/-- A round is an expansion. -/
theorem round_eq (goal v : Int) (stack seen : List Int) :
    t.round goal (.ongoing (v :: stack) seen) =
      if (g.targets v).contains goal then .answered true
      else .ongoing ((fresh seen (g.targets v)).reverse ++ stack)
        ((fresh seen (g.targets v)).reverse ++ seen) := by
  rw [round, h.leaving_eq]
  exact h.scan_eq goal (fun e he => (mem_outs.mp he).1) stack seen

/-- As long as the budget lasts for all vertices not met so far, the search ends as it does with the budget. -/
theorem exists_answered {goal : Int} {all stack seen met : List Int} {fuel : Nat}
    (htargets : ∀ u, ∀ w ∈ g.targets u, w ∈ all) (hf : g.Frontier goal stack seen)
    (hall : ∀ v ∈ seen, v ∈ all) (hfuel : all.length + stack.length ≤ fuel + seen.length)
    (hmet : ∀ v, v ∈ met ↔ v ∈ seen) :
    ∃ n ≤ fuel + 1, (t.round goal)^[n] (.ongoing stack met) = .answered (g.search goal fuel stack seen) := by
  induction fuel generalizing stack seen met with
  | zero =>
    -- every vertex has been met, so none can be waiting
    have hlen : seen.length ≤ all.length := (hf.nodup.subperm hall).length_le
    obtain rfl : stack = [] := List.length_eq_zero_iff.mp (by omega)
    exact ⟨1, Nat.le_refl 1, rfl⟩
  | succ fuel ih =>
    cases stack with
    | nil => exact ⟨1, by omega, rfl⟩
    | cons v stack =>
      have hround := h.round_eq goal v stack met
      by_cases hgoal : (g.targets v).contains goal = true
      · rw [if_pos hgoal] at hround
        refine ⟨1, by omega, ?_⟩
        rw [Function.iterate_one, hround, search, if_pos hgoal]
      · rw [if_neg hgoal, fresh_congr hmet] at hround
        have hnot : goal ∉ g.targets v := fun hmem => hgoal (List.contains_iff_mem.mpr hmem)
        have hmet' : ∀ w, w ∈ (fresh seen (g.targets v)).reverse ++ met ↔
            w ∈ fresh seen (g.targets v) ++ seen := by
          intro w
          rw [List.mem_append, List.mem_append, List.mem_reverse, hmet]
        obtain ⟨n, hn, hanswer⟩ := ih (hf.expand hnot) (forall_mem_fresh_append hall (htargets v))
          (by simp only [List.length_append, List.length_reverse, List.length_cons] at hfuel ⊢; omega) hmet'
        refine ⟨n + 1, by omega, ?_⟩
        rw [Function.iterate_succ_apply, hround, search, if_neg hgoal]
        exact hanswer

/-- The search answers after no more rounds than there are vertices, and two. -/
theorem exists_reachable (source goal : Int) :
    ∃ n ≤ t.order.length + 2, (t.round goal)^[n] (.start source goal) = .answered (g.reachable source goal) := by
  unfold Search.start reachable
  by_cases hsame : source = goal
  · refine ⟨0, Nat.zero_le _, ?_⟩
    rw [if_pos hsame, beq_iff_eq.mpr hsame, Bool.true_or]
    rfl
  · have htargets := mem_cons_live_of_mem_targets h.wellFormed.target_live source
    rw [if_neg hsame, beq_eq_false_iff_ne.mpr hsame, Bool.false_or, h.order_eq]
    exact h.exists_answered htargets (g.frontier_start source goal) (by simp) (by simp) fun _ => Iff.rfl

end Represents

/-- After any calls, and for any two numbers, whether they are vertices or not, the search in the tables of a
graph comes to an end, and finds the goal if and only if it is where the search starts or a path of edges leads
there. Its answer is that of the graph which has taken the same calls. -/
theorem built_search_decides {ops : List Operation} {calls : List Call} (h : Built ops calls t)
    (source goal : Int) :
    ∃ found, (∃ n ≤ t.order.length + 2, (t.round goal)^[n] (.start source goal) = .answered found) ∧
      (found = true ↔ source = goal ∨ TransGen t.Step source goal) ∧
      found = (calls.foldl take (.ofOps ops)).reachable source goal := by
  have hrep := h.represents
  have hstep : t.Step = (calls.foldl take (.ofOps ops)).Step :=
    funext fun u => funext fun v => propext hrep.step_iff
  refine ⟨_, hrep.exists_reachable source goal, ?_, rfl⟩
  rw [reachable_iff hrep.wellFormed.target_live, reflTransGen_iff_eq_or_transGen, hstep, eq_comm]

/-- A cycle through three vertices, and one that is not a vertex any more. -/
theorem busyCalls_search_decides :
    ∃ t, Built (List.replicate 5 (.label 0)) busyCalls t ∧
      (∃ n, (t.round 0)^[n] (.start 3 0) = .answered true) ∧ TransGen t.Step 3 0 ∧
      (∃ n, (t.round 1)^[n] (.start 3 1) = .answered false) ∧ ¬ TransGen t.Step 3 1 := by
  obtain ⟨t, ht⟩ := exists_built (List.replicate 5 (.label 0)) busyCalls
  obtain ⟨found, ⟨n, -, hn⟩, hpath, hfound⟩ := built_search_decides ht 3 0
  obtain ⟨found', ⟨n', -, hn'⟩, hpath', hfound'⟩ := built_search_decides ht 3 1
  obtain rfl : found = true := hfound.trans (by decide)
  obtain rfl : found' = false := hfound'.trans (by decide)
  exact ⟨t, ht, ⟨n, hn⟩, (hpath.mp rfl).resolve_left (by decide), ⟨n', hn'⟩,
    fun hp => Bool.false_ne_true (hpath'.mpr (Or.inr hp))⟩

end Tables

end FlowRecovery.Graph

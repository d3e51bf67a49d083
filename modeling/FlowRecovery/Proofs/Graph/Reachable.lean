import FlowRecovery.Proofs.Graph.WellFormed
import Mathlib.Data.List.Perm.Subperm
import Mathlib.Logic.Relation

/-! The search decides whether a path exists. A search that stops without the goal leaves behind a
set of vertices that contains the start, is closed under edges and has no edge to the goal. Each
vertex is pushed at most once, so the budget of one more than the number of vertices is enough. -/

namespace FlowRecovery.Graph

open Relation

variable {g : Graph}

theorem mem_fresh {seen l : List Int} {v : Int} : v ∈ fresh seen l ↔ v ∈ l ∧ v ∉ seen := by
  induction l generalizing seen with
  | nil => simp [fresh]
  | cons w rest ih =>
    by_cases hw : w ∈ seen
    · simp only [fresh, List.contains_iff_mem.mpr hw, if_true, ih, List.mem_cons]
      constructor
      · exact fun ⟨hv, hs⟩ => ⟨Or.inr hv, hs⟩
      · rintro ⟨rfl | hv, hs⟩
        · exact absurd hw hs
        · exact ⟨hv, hs⟩
    · have hc : seen.contains w = false := by simpa using hw
      simp only [fresh, hc, Bool.false_eq_true, if_false, List.mem_cons, ih, not_or]
      constructor
      · rintro (rfl | ⟨hv, -, hs⟩)
        · exact ⟨Or.inl rfl, hw⟩
        · exact ⟨Or.inr hv, hs⟩
      · rintro ⟨rfl | hv, hs⟩
        · exact Or.inl rfl
        · by_cases hvw : v = w
          · exact Or.inl hvw
          · exact Or.inr ⟨hv, hvw, hs⟩

theorem nodup_fresh (seen l : List Int) : (fresh seen l).Nodup := by
  induction l generalizing seen with
  | nil => exact List.nodup_nil
  | cons w rest ih =>
    unfold fresh
    split_ifs
    · exact ih seen
    · refine List.nodup_cons.mpr ⟨?_, ih _⟩
      intro hw
      exact (mem_fresh.mp hw).2 (List.mem_cons_self ..)

theorem forall_mem_fresh_append {seen l all : List Int} (hseen : ∀ v ∈ seen, v ∈ all)
    (hl : ∀ v ∈ l, v ∈ all) : ∀ v ∈ fresh seen l ++ seen, v ∈ all := by
  intro v hv
  rcases List.mem_append.mp hv with hv | hv
  · exact hl v (mem_fresh.mp hv).1
  · exact hseen v hv

theorem search_sound {goal : Int} {fuel : Nat} {stack seen : List Int}
    (h : g.search goal fuel stack seen = true) : ∃ v ∈ stack, TransGen g.Step v goal := by
  induction fuel generalizing stack seen with
  | zero => simp [search] at h
  | succ fuel ih =>
    cases stack with
    | nil => simp [search] at h
    | cons v stack =>
      simp only [search] at h
      split_ifs at h with hgoal
      · have hstep := mem_targets.mp (List.contains_iff_mem.mp hgoal)
        exact ⟨v, List.mem_cons_self .., TransGen.single hstep⟩
      · obtain ⟨w, hw, hpath⟩ := ih h
        rcases List.mem_append.mp hw with hw | hw
        · have hstep := mem_targets.mp (mem_fresh.mp (List.mem_reverse.mp hw)).1
          exact ⟨v, List.mem_cons_self .., TransGen.head hstep hpath⟩
        · exact ⟨w, List.mem_cons_of_mem _ hw, hpath⟩

/-- What the search for `goal` knows: every vertex it has met and expanded leads only to vertices it
has met, and not to the goal. -/
structure Frontier (g : Graph) (goal : Int) (stack seen : List Int) : Prop where
  stack_seen : ∀ v ∈ stack, v ∈ seen
  nodup : seen.Nodup
  expanded : ∀ v ∈ seen, v ∈ stack ∨ goal ∉ g.targets v ∧ ∀ w ∈ g.targets v, w ∈ seen

theorem frontier_start (g : Graph) (source goal : Int) : g.Frontier goal [source] [source] where
  stack_seen _ hv := hv
  nodup := List.nodup_singleton source
  expanded _ hv := Or.inl hv

theorem Frontier.expand {goal v : Int} {stack seen : List Int}
    (h : g.Frontier goal (v :: stack) seen) (hgoal : goal ∉ g.targets v) :
    g.Frontier goal ((fresh seen (g.targets v)).reverse ++ stack)
      (fresh seen (g.targets v) ++ seen) where
  stack_seen := by
    intro w hw
    rcases List.mem_append.mp hw with hw | hw
    · exact List.mem_append_left _ (List.mem_reverse.mp hw)
    · exact List.mem_append_right _ (h.stack_seen w (List.mem_cons_of_mem _ hw))
  nodup := by
    refine List.nodup_append.mpr ⟨nodup_fresh _ _, h.nodup, ?_⟩
    intro a ha b hb hab
    exact (mem_fresh.mp ha).2 (hab ▸ hb)
  expanded := by
    have hall : ∀ w ∈ g.targets v, w ∈ fresh seen (g.targets v) ++ seen := by
      intro w hw
      by_cases hs : w ∈ seen
      · exact List.mem_append_right _ hs
      · exact List.mem_append_left _ (mem_fresh.mpr ⟨hw, hs⟩)
    intro w hw
    rcases List.mem_append.mp hw with hw | hw
    · exact Or.inl (List.mem_append_left _ (List.mem_reverse.mpr hw))
    · rcases h.expanded w hw with hst | ⟨hg, hin⟩
      · rcases List.mem_cons.mp hst with rfl | hst
        · exact Or.inr ⟨hgoal, hall⟩
        · exact Or.inl (List.mem_append_right _ hst)
      · exact Or.inr ⟨hg, fun x hx => List.mem_append_right _ (hin x hx)⟩

/-- A search that fails within its budget has a closed set to show for it. -/
theorem exists_closed_of_search_eq_false {goal : Int} {all stack seen : List Int} {fuel : Nat}
    (htargets : ∀ u, ∀ w ∈ g.targets u, w ∈ all) (hf : g.Frontier goal stack seen)
    (hall : ∀ v ∈ seen, v ∈ all) (hfuel : all.length + stack.length ≤ fuel + seen.length)
    (h : g.search goal fuel stack seen = false) :
    ∃ closed : List Int, (∀ v ∈ seen, v ∈ closed) ∧
      ∀ v ∈ closed, goal ∉ g.targets v ∧ ∀ w ∈ g.targets v, w ∈ closed := by
  induction fuel generalizing stack seen with
  | zero =>
    -- no budget is left, so the vertices met are all there are and none is waiting
    have hlen : seen.length ≤ all.length := (hf.nodup.subperm hall).length_le
    have hnil : stack = [] := List.length_eq_zero_iff.mp (by omega)
    subst hnil
    exact ⟨seen, fun _ hv => hv, fun v hv => (hf.expanded v hv).resolve_left List.not_mem_nil⟩
  | succ fuel ih =>
    cases stack with
    | nil =>
      exact ⟨seen, fun _ hv => hv, fun v hv => (hf.expanded v hv).resolve_left List.not_mem_nil⟩
    | cons v stack =>
      simp only [search] at h
      split_ifs at h with hgoal
      have hnot : goal ∉ g.targets v := fun hmem => hgoal (List.contains_iff_mem.mpr hmem)
      obtain ⟨closed, hsub, hclosed⟩ := ih (hf.expand hnot) (forall_mem_fresh_append hall (htargets v))
        (by simp only [List.length_append, List.length_reverse, List.length_cons] at hfuel ⊢; omega)
        h
      exact ⟨closed, fun w hw => hsub w (List.mem_append_right _ hw), hclosed⟩

/-- All that a search can meet. -/
theorem mem_cons_live_of_mem_targets (htarget : ∀ e ∈ g.edges, e.target ∈ g.live) (source : Int) :
    ∀ u, ∀ v ∈ g.targets u, v ∈ source :: g.live := by
  intro u v hv
  obtain ⟨e, he, -, rfl⟩ := mem_targets.mp hv
  exact List.mem_cons_of_mem _ (htarget e he)

/-- In a graph whose edges end at vertices, the search decides whether a path exists. -/
theorem reachable_iff (htarget : ∀ e ∈ g.edges, e.target ∈ g.live) {u v : Int} :
    g.reachable u v = true ↔ ReflTransGen g.Step u v := by
  rw [reflTransGen_iff_eq_or_transGen]
  unfold reachable
  rw [Bool.or_eq_true, beq_iff_eq]
  constructor
  · rintro (rfl | h)
    · exact Or.inl rfl
    · obtain ⟨w, hw, hpath⟩ := search_sound h
      exact Or.inr (List.mem_singleton.mp hw ▸ hpath)
  · rintro (rfl | hpath)
    · exact Or.inl rfl
    · refine Or.inr ?_
      by_contra hne
      obtain ⟨closed, hsub, hclosed⟩ := exists_closed_of_search_eq_false
        (mem_cons_live_of_mem_targets htarget u) (g.frontier_start u v) (by simp) (by simp [size])
        (Bool.eq_false_iff.mpr hne)
      have hpred : ∀ w, ReflTransGen g.Step u w → w ∈ closed := by
        intro w hw
        induction hw with
        | refl => exact hsub u (List.mem_singleton_self u)
        | tail _ hstep ih => exact (hclosed _ ih).2 _ (mem_targets.mpr hstep)
      obtain ⟨w, hw, hlast⟩ := TransGen.tail'_iff.mp hpath
      exact (hclosed w (hpred w hw)).1 (mem_targets.mpr hlast)

end FlowRecovery.Graph

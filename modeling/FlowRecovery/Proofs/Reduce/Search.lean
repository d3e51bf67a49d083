import FlowRecovery.Proofs.Reduce.Converge
import Mathlib.Data.List.Perm.Subperm
import Mathlib.Logic.Relation

/-! The searches along the arms are complete. No vertex is queued twice, so the budget of one more than
the number of vertices outlasts the queue, and what has been met when the queue is empty is closed under
edges that do not lead to the branch. Hence a search meets the vertices that its arm leads to on paths
that avoid the branch, and arms have no merge exactly if no vertex is on such paths of both. -/

namespace FlowRecovery.Graph

open Relation

variable {g : Graph} {origin x y : Int} {arm elseArm ifArm : Edge} {queue : List (Int × Nat)}
  {hops res : Hops} {d : Nat}

/-- A path from `x` to `y` that avoids `v`; neither of its ends is `v`. -/
def Avoiding (g : Graph) (v x y : Int) : Prop :=
  x ≠ v ∧ ReflTransGen (fun a b => g.Step a b ∧ b ≠ v) x y

namespace Avoiding

variable {v z : Int}

theorem refl (hx : x ≠ v) : g.Avoiding v x x := ⟨hx, ReflTransGen.refl⟩

theorem trans (h : g.Avoiding v x y) (h' : g.Avoiding v y z) : g.Avoiding v x z :=
  ⟨h.1, h.2.trans h'.2⟩

theorem tail (h : g.Avoiding v x y) (hstep : g.Step y z) (hz : z ≠ v) : g.Avoiding v x z :=
  ⟨h.1, h.2.tail ⟨hstep, hz⟩⟩

/-- What holds at the start of a path and is kept by its edges holds at its end. -/
theorem induction {P : Int → Prop} (h : g.Avoiding v x y) (hx : P x)
    (hstep : ∀ a b, P a → a ≠ v → g.Step a b → b ≠ v → P b) : P y := by
  obtain ⟨hne, hpath⟩ := h
  have hboth : P y ∧ y ≠ v := by
    induction hpath with
    | refl => exact ⟨hx, hne⟩
    | tail _ hab ih => exact ⟨hstep _ _ ih.1 ih.2 hab.1 hab.2, hab.2⟩
  exact hboth.1

end Avoiding

/-! ### The budget -/

/-- The vertices that were met. -/
def noted (hops : Hops) : List Int := hops.map Prod.fst

theorem isSome_lookup_iff : (hops.lookup x).isSome = true ↔ x ∈ noted hops := by
  rw [List.lookup_isSome_iff, noted, List.mem_map]
  refine exists_congr fun p => and_congr_right fun _ => ?_
  rw [beq_iff_eq, eq_comm]

theorem noted_append (new : List Edge) :
    noted (hops ++ new.map fun e => (e.target, ⟨d, e⟩)) = noted hops ++ new.map Edge.target := by
  simp [noted]

/-- What expanding a vertex does: the targets met for the first time, each once, go to the end of the
queue. -/
theorem exists_met (origin : Int) (d : Nat) (es : List Edge) (queue : List (Int × Nat))
    (hops : Hops) :
    ∃ new : List Edge,
      es.foldl (meet origin d) (queue, hops) =
        (queue ++ new.map fun e => (e.target, d), hops ++ new.map fun e => (e.target, ⟨d, e⟩)) ∧
      new ⊆ es ∧ ((noted hops).Nodup → (noted hops ++ new.map Edge.target).Nodup) ∧
      ∀ e ∈ es, e.target ≠ origin → e.target ∈ noted hops ++ new.map Edge.target := by
  induction es generalizing queue hops with
  | nil => exact ⟨[], by simp, by simp, by simp, by simp⟩
  | cons e es ih =>
    rw [List.foldl_cons, meet]
    split_ifs with hseen
    · obtain ⟨new, heq, hsub, hnodup, hcover⟩ := ih queue hops
      refine ⟨new, heq, fun f hf => List.mem_cons_of_mem _ (hsub hf), hnodup, ?_⟩
      intro f hf hne
      rcases List.mem_cons.mp hf with rfl | hf
      · exact List.mem_append_left _ (isSome_lookup_iff.mp (hseen.resolve_left hne))
      · exact hcover f hf hne
    · obtain ⟨-, hnew⟩ := not_or.mp hseen
      rw [isSome_lookup_iff] at hnew
      obtain ⟨new, heq, hsub, hnodup, hcover⟩ :=
        ih (queue ++ [(e.target, d)]) (hops ++ [(e.target, ⟨d, e⟩)])
      have hnoted : noted (hops ++ [(e.target, ⟨d, e⟩)]) ++ new.map Edge.target =
          noted hops ++ (e :: new).map Edge.target := by
        simp [noted]
      rw [hnoted] at hnodup hcover
      refine ⟨e :: new, by simp [heq], List.cons_subset_cons e hsub, ?_, ?_⟩
      · intro hold
        refine hnodup ?_
        rw [noted, List.map_append, List.map_singleton, ← List.concat_eq_append]
        exact List.Nodup.concat hnew hold
      · intro f hf hne
        rcases List.mem_cons.mp hf with rfl | hf
        · exact List.mem_append_right _ (List.mem_cons_self ..)
        · exact hcover f hf hne

/-- A search that works off its queue, whatever the budget. -/
inductive Spreads (g : Graph) (origin : Int) : List (Int × Nat) → Hops → Hops → Prop
  | done (hops : Hops) : Spreads g origin [] hops hops
  | expand {v : Int} {d : Nat} {queue : List (Int × Nat)} {hops res : Hops}
      (rest : Spreads g origin ((g.outs v).foldl (meet origin (d + 1)) (queue, hops)).1
        ((g.outs v).foldl (meet origin (d + 1)) (queue, hops)).2 res) :
      Spreads g origin ((v, d) :: queue) hops res

theorem spreads_spread {fuel : Nat} (hlive : ∀ e ∈ g.edges, e.target ∈ g.live)
    (hnodup : (noted hops).Nodup) (hnoted : ∀ x ∈ noted hops, x ∈ g.live)
    (hfuel : queue.length + g.size ≤ fuel + hops.length) :
    Spreads g origin queue hops (g.spread origin fuel queue hops) := by
  induction fuel generalizing queue hops with
  | zero =>
    -- what waits has been noted, and each vertex once: an empty budget leaves an empty queue
    have hlen : (noted hops).length ≤ g.size := (hnodup.subperm hnoted).length_le
    rw [noted, List.length_map] at hlen
    obtain rfl : queue = [] := List.length_eq_zero_iff.mp (by omega)
    exact .done hops
  | succ fuel ih =>
    cases queue with
    | nil => exact .done hops
    | cons head queue =>
      obtain ⟨v, d⟩ := head
      unfold Graph.spread
      refine .expand ?_
      obtain ⟨new, heq, hsub, hnew, -⟩ :=
        exists_met origin (d + 1) (g.outs v) queue hops
      rw [heq]
      refine ih (noted_append new ▸ hnew hnodup) ?_ ?_
      · intro x hx
        rw [noted_append, List.mem_append] at hx
        rcases hx with hx | hx
        · exact hnoted x hx
        · obtain ⟨e, he, rfl⟩ := List.mem_map.mp hx
          exact hlive e (mem_outs.mp (hsub he)).1
      · simp only [List.length_append, List.length_map, List.length_cons] at hfuel ⊢
        omega

theorem spreads_armSearch (hlive : ∀ e ∈ g.edges, e.target ∈ g.live) (harm : arm.target ∈ g.live)
    (hne : arm.target ≠ origin) :
    Spreads g origin [(arm.target, 0)] [(arm.target, ⟨0, arm⟩)] (g.armSearch origin arm) := by
  unfold armSearch
  rw [if_neg hne]
  refine spreads_spread hlive (by simp [noted]) ?_ ?_
  · intro x hx
    rw [noted, List.map_singleton, List.mem_singleton] at hx
    exact hx ▸ harm
  · simp only [List.length_singleton]
    omega

/-! ### What is met -/

/-- Vertices that no longer wait have all their targets noted. -/
def Closed (g : Graph) (origin : Int) (queue : List (Int × Nat)) (hops : Hops) : Prop :=
  ∀ x ∈ noted hops, x ∈ queue.map Prod.fst ∨
    ∀ e ∈ g.outs x, e.target ≠ origin → e.target ∈ noted hops

theorem Spreads.closed (h : Spreads g origin queue hops res) (hclosed : g.Closed origin queue hops) :
    g.Closed origin [] res ∧ noted hops ⊆ noted res := by
  induction h with
  | done hops => exact ⟨hclosed, fun _ hx => hx⟩
  | @expand v d queue hops res rest ih =>
    obtain ⟨new, heq, -, -, hcover⟩ :=
      exists_met origin (d + 1) (g.outs v) queue hops
    rw [heq] at ih
    obtain ⟨hres, hsub⟩ := ih <| by
      intro x hx
      rw [noted_append, List.mem_append] at hx
      rw [noted_append]
      rcases hx with hx | hx
      · rcases hclosed x hx with hwait | hdone
        · rcases List.mem_cons.mp hwait with rfl | hwait
          · exact Or.inr hcover
          · exact Or.inl (by simpa using Or.inl hwait)
        · exact Or.inr fun e he hne => List.mem_append_left _ (hdone e he hne)
      · exact Or.inl (by simpa using Or.inr hx)
    refine ⟨hres, ?_⟩
    intro x hx
    exact hsub (noted_append new ▸ List.mem_append_left _ hx)

/-- A search follows paths that avoid the branch. -/
theorem Searched.avoiding (h : g.Searched origin arm queue hops) {hop : Hop}
    (hx : hops.lookup x = some hop) : g.Avoiding origin arm.target x := by
  have hne : ∀ z hop, hops.lookup z = some hop → z ≠ origin := by
    rintro z hop hz rfl
    rw [h.avoids] at hz
    simp at hz
  induction hdistance : hop.distance generalizing x hop with
  | zero =>
    rcases h.met x hop hx with ⟨-, rfl⟩ | ⟨-, -, before, -, hlate⟩
    · exact .refl (hne _ _ hx)
    · omega
  | succ n ih =>
    rcases h.met x hop hx with ⟨rfl, -⟩ | ⟨hedge, rfl, before, hbefore, hlate⟩
    · simp at hdistance
    · exact (ih hbefore (by omega)).tail ⟨_, hedge, rfl, rfl⟩ (hne _ _ hx)

theorem isSome_armSearch_iff (hlive : ∀ e ∈ g.edges, e.target ∈ g.live)
    (harm : arm.target ∈ g.live) :
    ((g.armSearch origin arm).lookup x).isSome = true ↔ g.Avoiding origin arm.target x := by
  constructor
  · intro hsome
    obtain ⟨hop, hhop⟩ := Option.isSome_iff_exists.mp hsome
    obtain ⟨queue, hs⟩ := searched_armSearch g origin arm
    exact hs.avoiding hhop
  · intro hpath
    have hstart : g.Closed origin [(arm.target, 0)] [(arm.target, ⟨0, arm⟩)] :=
      fun x hx => Or.inl (by simpa [noted] using hx)
    obtain ⟨hclosed, hsub⟩ := (spreads_armSearch hlive harm hpath.1).closed hstart
    rw [isSome_lookup_iff]
    refine hpath.induction (hsub (by simp [noted])) ?_
    rintro a b ha - ⟨e, he, rfl, rfl⟩ hb
    rcases hclosed _ ha with hwait | hdone
    · simp at hwait
    · exact hdone e (mem_outs.mpr ⟨he, rfl⟩) hb

/-! ### Merges -/

/-- A vertex that both searches met is or has a rival. -/
theorem exists_converge {a b : Hop} (hx : x ∈ g.live)
    (ha : (g.armSearch origin elseArm).lookup x = some a)
    (hb : (g.armSearch origin ifArm).lookup x = some b) :
    ∃ m, g.converge origin elseArm ifArm = some m := by
  have hstart : Best (g.armSearch origin elseArm) (g.armSearch origin ifArm) [] none :=
    ⟨by simp, by simp⟩
  obtain ⟨score, m, hbest, -⟩ := (hstart.foldl g.live).least x hx a b ha hb
  exact ⟨m, by rw [converge, hbest, Option.map_some]⟩

section Converge

variable (hlive : ∀ e ∈ g.edges, e.target ∈ g.live) (helse : elseArm.target ∈ g.live)
  (hif : ifArm.target ∈ g.live)

include hlive helse hif

theorem avoiding_of_converge {m : Merge} (h : g.converge origin elseArm ifArm = some m) :
    g.Avoiding origin elseArm.target m.vertex ∧ g.Avoiding origin ifArm.target m.vertex := by
  obtain ⟨score, hbest⟩ := best_converge h
  obtain ⟨a, b, ha, hb, -⟩ := hbest.met score m rfl
  exact ⟨(isSome_armSearch_iff hlive helse).mp (by simp [ha]),
    (isSome_armSearch_iff hlive hif).mp (by simp [hb])⟩

/-- Arms have no merge exactly if no vertex is on paths of both that avoid the branch. -/
theorem converge_eq_none_iff :
    g.converge origin elseArm ifArm = none ↔
      ∀ y, ¬ (g.Avoiding origin elseArm.target y ∧ g.Avoiding origin ifArm.target y) := by
  constructor
  · rintro hnone y ⟨hy, hy'⟩
    obtain ⟨a, ha⟩ := Option.isSome_iff_exists.mp ((isSome_armSearch_iff hlive helse).mpr hy)
    obtain ⟨b, hb⟩ := Option.isSome_iff_exists.mp ((isSome_armSearch_iff hlive hif).mpr hy')
    have hmem : y ∈ g.live := by
      refine hy.induction helse ?_
      rintro u w - - ⟨e, he, rfl, rfl⟩ -
      exact hlive e he
    obtain ⟨m, hm⟩ := exists_converge hmem ha hb
    simp [hnone] at hm
  · intro hnone
    cases hm : g.converge origin elseArm ifArm with
    | none => rfl
    | some m => exact absurd (avoiding_of_converge hlive helse hif hm) (hnone m.vertex)

end Converge

end FlowRecovery.Graph

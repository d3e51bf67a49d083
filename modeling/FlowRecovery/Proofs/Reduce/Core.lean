import FlowRecovery.Proofs.Graph.Sealed
import FlowRecovery.Proofs.Reduce.Arms
import FlowRecovery.Proofs.Reduce.Search

/-! Merges are found in the core. A search that starts in a sealed part can leave it over one edge only
and never comes back, so what it notes inside is what the same search of the core notes, at the same
distances and over the same edges. A vertex outside that both arms lead to is farther from both than the
vertex where they leave, and so never the nearest one: the arms have the merge that they have in the
core. -/

namespace FlowRecovery

open FlowRecovery.Graph

def Hop.bare (hop : Hop) : Hop := ⟨hop.distance, hop.via.bare⟩

def Merge.bare (m : Merge) : Merge := ⟨m.vertex, m.elseIn.bare, m.ifIn.bare⟩

def Arms.bare (a : Arms) : Arms := ⟨a.elseArm.bare, a.ifArm.bare⟩

namespace Graph

variable {S : List Int} {n : Nat} {g : Graph} {origin x : Int} {arm elseArm ifArm : Edge}
  {queue : List (Int × Nat)} {hops res res' : Hops}

/-! ### Searching the core -/

/-- What is noted of the vertices of `S`. -/
def hopsIn (S : List Int) (hops : Hops) : Hops :=
  (hops.filter fun p => decide (p.1 ∈ S)).map fun p => (p.1, p.2.bare)

/-- The vertices of `S` that wait. -/
def queueIn (S : List Int) (queue : List (Int × Nat)) : List (Int × Nat) :=
  queue.filter fun p => decide (p.1 ∈ S)

theorem lookup_hopsIn (hx : x ∈ S) : (hopsIn S hops).lookup x = (hops.lookup x).map Hop.bare := by
  induction hops with
  | nil => rfl
  | cons p hops ih =>
    obtain ⟨y, hop⟩ := p
    by_cases hxy : x = y
    · subst hxy
      simp [hopsIn, hx]
    · have hne : (x == y) = false := by simpa using hxy
      by_cases hy : y ∈ S
      · simpa [hopsIn, hy, List.lookup_cons, hne] using ih
      · simpa [hopsIn, hy, List.lookup_cons, hne] using ih

theorem mem_of_lookup_hopsIn {hop : Hop} (h : (hopsIn S hops).lookup x = some hop) : x ∈ S := by
  have hnoted := isSome_lookup_iff.mp (Option.isSome_of_eq_some h)
  obtain ⟨p, hp, rfl⟩ := List.mem_map.mp hnoted
  obtain ⟨q, hq, rfl⟩ := List.mem_map.mp hp
  simpa using (List.mem_filter.mp hq).2

theorem meet_hopsIn (origin : Int) (queue : List (Int × Nat)) (hops : Hops) (d : Nat) (e : Edge) :
    (queueIn S (meet origin d (queue, hops) e).1, hopsIn S (meet origin d (queue, hops) e).2) =
      if e.target ∈ S then meet origin d (queueIn S queue, hopsIn S hops) e.bare
      else (queueIn S queue, hopsIn S hops) := by
  by_cases htarget : e.target ∈ S
  · have hseen : ((hopsIn S hops).lookup e.target).isSome = (hops.lookup e.target).isSome := by
      rw [lookup_hopsIn htarget, Option.isSome_map]
    rw [if_pos htarget, meet, meet]
    simp only [Edge.target_bare, hseen]
    split_ifs
    · rfl
    · simp [queueIn, hopsIn, List.filter_append, htarget, Hop.bare]
  · rw [if_neg htarget, meet]
    split_ifs
    · rfl
    · simp [queueIn, hopsIn, List.filter_append, htarget]

theorem foldl_meet_hopsIn (origin : Int) (queue : List (Int × Nat)) (hops : Hops) (d : Nat)
    (es : List Edge) :
    (queueIn S (es.foldl (meet origin d) (queue, hops)).1,
        hopsIn S (es.foldl (meet origin d) (queue, hops)).2) =
      ((es.filter fun e => decide (e.target ∈ S)).map Edge.bare).foldl (meet origin d)
        (queueIn S queue, hopsIn S hops) := by
  induction es generalizing queue hops with
  | nil => rfl
  | cons e es ih =>
    rw [List.foldl_cons, ih (meet origin d (queue, hops) e).1 (meet origin d (queue, hops) e).2,
      meet_hopsIn]
    by_cases htarget : e.target ∈ S <;> simp [htarget]

theorem Spreads.unique (h : Spreads g origin queue hops res)
    (h' : Spreads g origin queue hops res') : res = res' := by
  induction h with
  | done => cases h'; rfl
  | expand _ ih =>
    cases h' with
    | expand rest' => exact ih rest'

/-- A search of a part that nothing enters, seen from inside. -/
theorem Spreads.core (h : Spreads g origin queue hops res) (hg : Sealed S g) :
    Spreads (g.core S n) origin (queueIn S queue) (hopsIn S hops) (hopsIn S res) := by
  induction h with
  | done hops => exact .done _
  | @expand v d queue hops res rest ih =>
    have hstep := foldl_meet_hopsIn (S := S) origin queue hops (d + 1) (g.outs v)
    by_cases hv : v ∈ S
    · have hqueue : queueIn S ((v, d) :: queue) = (v, d) :: queueIn S queue := by simp [queueIn, hv]
      rw [hqueue]
      refine .expand ?_
      rw [outs_core hv, ← hstep]
      exact ih
    · -- from outside nothing leads in, so nothing is noted
      have hnone : (g.outs v).filter (fun e => decide (e.target ∈ S)) = [] := by
        refine List.filter_eq_nil_iff.mpr ?_
        intro e he htarget
        obtain ⟨hedge, rfl⟩ := mem_outs.mp he
        exact hg.outward hedge hv (of_decide_eq_true htarget)
      have hqueue : queueIn S ((v, d) :: queue) = queueIn S queue := by simp [queueIn, hv]
      rw [hnone, List.map_nil, List.foldl_nil, Prod.mk.injEq] at hstep
      rw [hstep.1, hstep.2] at ih
      rw [hqueue]
      exact ih

theorem armSearch_core (hg : g.WellFormed) (hs : Sealed S g) (harm : arm.target ∈ g.live)
    (hin : arm.target ∈ S) :
    (g.core S n).armSearch origin arm.bare = hopsIn S (g.armSearch origin arm) := by
  by_cases hne : arm.target = origin
  · rw [armSearch, armSearch, if_pos hne, if_pos (show arm.bare.target = origin from hne)]
    rfl
  · have hcore := (spreads_armSearch hg.target_live harm hne).core (n := n) hs
    have harm' : arm.bare.target ∈ (g.core S n).live := mem_live_core.mpr ⟨harm, hin⟩
    refine (spreads_armSearch (target_live_core hg) harm' hne).unique ?_
    simpa [queueIn, hopsIn, hin, Hop.bare] using hcore

/-! ### The first of the nearest vertices -/

/-- Among the vertices `seen`, those before the merge are farther. -/
def Foremost (fromElse fromIf : Hops) (seen : List Int) (best : Option (Nat × Merge)) : Prop :=
  ∀ score m, best = some (score, m) → m.vertex ∈ seen ∧
    ∀ w ∈ seen, w < m.vertex → ∀ a b, fromElse.lookup w = some a → fromIf.lookup w = some b →
      score < a.distance + b.distance

theorem Foremost.nearer {fromElse fromIf : Hops} {seen : List Int} {best : Option (Nat × Merge)}
    {v : Int} (h : Foremost fromElse fromIf seen best) (hbest : Best fromElse fromIf seen best)
    (hlast : ∀ w ∈ seen, w < v) :
    Foremost fromElse fromIf (seen ++ [v]) (Graph.nearer fromElse fromIf best v) := by
  have hkept : Foremost fromElse fromIf (seen ++ [v]) best := by
    intro score m heq
    obtain ⟨hmem, hfirst⟩ := h score m heq
    refine ⟨List.mem_append_left _ hmem, ?_⟩
    intro w hw hlt
    rcases List.mem_append.mp hw with hw | hw
    · exact hfirst w hw hlt
    · rw [List.mem_singleton.mp hw] at hlt
      exact absurd (Int.lt_trans hlt (hlast _ hmem)) (Int.lt_irrefl v)
  have hhere : ∀ a b : Hop, (∀ score m, best = some (score, m) → a.distance + b.distance < score) →
      Foremost fromElse fromIf (seen ++ [v])
        (some (a.distance + b.distance, ⟨v, a.via, b.via⟩)) := by
    intro a b hless score m heq
    obtain ⟨rfl, rfl⟩ := Prod.mk.inj (Option.some.inj heq)
    refine ⟨List.mem_append_right _ (List.mem_singleton_self v), ?_⟩
    intro w hw hlt a' b' ha' hb'
    rcases List.mem_append.mp hw with hw | hw
    · obtain ⟨least, m', hsome, hle⟩ := hbest.least w hw a' b' ha' hb'
      exact Nat.lt_of_lt_of_le (hless least m' hsome) hle
    · rw [List.mem_singleton.mp hw] at hlt
      exact absurd hlt (Int.lt_irrefl v)
  unfold Graph.nearer
  split
  · next a b _ _ =>
    cases best with
    | none => exact hhere a b (by simp)
    | some kept =>
      obtain ⟨least, kept⟩ := kept
      simp only
      split_ifs with hless
      · refine hhere a b ?_
        intro score m heq
        obtain ⟨rfl, -⟩ := Prod.mk.inj (Option.some.inj heq)
        exact hless
      · exact hkept
  · exact hkept

theorem Foremost.foldl {fromElse fromIf : Hops} {seen vs : List Int} {best : Option (Nat × Merge)}
    (h : Foremost fromElse fromIf seen best) (hbest : Best fromElse fromIf seen best)
    (hsorted : (seen ++ vs).Pairwise (· < ·)) :
    Foremost fromElse fromIf (seen ++ vs) (vs.foldl (Graph.nearer fromElse fromIf) best) := by
  induction vs generalizing seen best with
  | nil => simpa using h
  | cons v vs ih =>
    have hlast : ∀ w ∈ seen, w < v := fun w hw =>
      (List.pairwise_append.mp hsorted).2.2 w hw v (List.mem_cons_self ..)
    have hrest := ih (h.nearer hbest hlast) (hbest.nearer v) (by simpa using hsorted)
    simpa using hrest

/-- The nearest vertex, and the first of several, as `converge` finds it. -/
theorem foremost_converge (hsorted : g.live.Pairwise (· < ·)) {m : Merge}
    (h : g.converge origin elseArm ifArm = some m) :
    ∃ score, Best (g.armSearch origin elseArm) (g.armSearch origin ifArm) g.live
        (some (score, m)) ∧
      Foremost (g.armSearch origin elseArm) (g.armSearch origin ifArm) g.live
        (some (score, m)) := by
  obtain ⟨⟨score, m⟩, hfold, rfl⟩ := Option.map_eq_some_iff.mp h
  have hstart : Best (g.armSearch origin elseArm) (g.armSearch origin ifArm) [] none :=
    ⟨by simp, by simp⟩
  have hfirst : Foremost (g.armSearch origin elseArm) (g.armSearch origin ifArm) [] none := by
    intro score m heq
    simp at heq
  have hboth := hfirst.foldl hstart (show ([] ++ g.live).Pairwise (· < ·) by simpa using hsorted)
  have hbest := hstart.foldl g.live
  rw [List.nil_append, hfold] at hboth hbest
  exact ⟨score, hbest, hboth⟩

/-- The first of the nearest vertices is the same for searches that tell the same of both. -/
theorem Foremost.vertex_eq {fromElse fromIf fromElse' fromIf' : Hops} {seen seen' : List Int}
    {score score' : Nat} {m m' : Merge} {a b c d : Hop}
    (h : Foremost fromElse fromIf seen (some (score, m)))
    (h' : Foremost fromElse' fromIf' seen' (some (score', m')))
    (hbest : Best fromElse fromIf seen (some (score, m)))
    (hbest' : Best fromElse' fromIf' seen' (some (score', m')))
    (hseen : m'.vertex ∈ seen) (ha : fromElse.lookup m'.vertex = some a)
    (hb : fromIf.lookup m'.vertex = some b) (hab : score' = a.distance + b.distance)
    (hseen' : m.vertex ∈ seen') (hc : fromElse'.lookup m.vertex = some c)
    (hd : fromIf'.lookup m.vertex = some d) (hcd : score = c.distance + d.distance) :
    m'.vertex = m.vertex := by
  obtain ⟨least, _, heq, hle⟩ := hbest.least _ hseen a b ha hb
  obtain ⟨rfl, -⟩ := Prod.mk.inj (Option.some.inj heq)
  obtain ⟨least', _, heq', hle'⟩ := hbest'.least _ hseen' c d hc hd
  obtain ⟨rfl, -⟩ := Prod.mk.inj (Option.some.inj heq')
  by_contra hne
  rcases Int.lt_or_gt_of_ne hne with hlt | hlt
  · have hfar := (h _ m rfl).2 _ hseen hlt a b ha hb
    omega
  · have hfar := (h' _ m' rfl).2 _ hseen' hlt c d hc hd
    omega

/-! ### Merges -/

/-- A search that met a vertex outside has left over an edge at a vertex that is nearer. -/
theorem Searched.exists_leaves (h : g.Searched origin arm queue hops) (hin : arm.target ∈ S)
    {hop : Hop} (hx : x ∉ S) (hhop : hops.lookup x = some hop) :
    ∃ e ∈ g.edges, leaves S e = true ∧ ∃ before, hops.lookup e.source = some before ∧
      before.distance < hop.distance := by
  induction hdistance : hop.distance generalizing x hop with
  | zero =>
    rcases h.met x hop hhop with ⟨-, rfl⟩ | ⟨-, -, before, -, hlate⟩
    · exact absurd hin hx
    · omega
  | succ d ih =>
    rcases h.met x hop hhop with ⟨-, rfl⟩ | ⟨hedge, rfl, before, hbefore, hlate⟩
    · exact absurd hin hx
    · by_cases hsource : hop.via.source ∈ S
      · exact ⟨hop.via, hedge, leaves_iff.mpr ⟨hsource, hx⟩, before, hbefore, by omega⟩
      · obtain ⟨e, he, hleaves, before', hbefore', hless⟩ := ih hsource hbefore (by omega)
        exact ⟨e, he, hleaves, before', hbefore', by omega⟩

section Converge

variable (hg : g.WellFormed) (hs : Sealed S g) (helse : elseArm.target ∈ g.live)
  (hif : ifArm.target ∈ g.live) (helseIn : elseArm.target ∈ S) (hifIn : ifArm.target ∈ S)

include hg hs helseIn hifIn

/-- Arms that start inside meet inside. -/
theorem mem_of_converge {m : Merge} (h : g.converge origin elseArm ifArm = some m) :
    m.vertex ∈ S := by
  by_contra hout
  obtain ⟨score, hbest⟩ := best_converge h
  obtain ⟨a, b, ha, hb, -, -, rfl⟩ := hbest.met score m rfl
  obtain ⟨_, hsearch⟩ := searched_armSearch g origin elseArm
  obtain ⟨_, hsearch'⟩ := searched_armSearch g origin ifArm
  obtain ⟨e, he, hleaves, before, hbefore, hless⟩ := hsearch.exists_leaves helseIn hout ha
  obtain ⟨f, hf, hleaves', before', hbefore', hless'⟩ := hsearch'.exists_leaves hifIn hout hb
  -- both arms leave over the same edge, at a vertex that is nearer to both
  obtain rfl := hs.leaves_unique he hf hleaves hleaves'
  obtain ⟨least, m', heq, hle⟩ := hbest.least e.source (hg.source_live e he) before before' hbefore
    hbefore'
  obtain ⟨rfl, -⟩ := Prod.mk.inj (Option.some.inj heq)
  omega

include helse hif

/-- A merge of the core was met by the searches of the whole graph, as far away. -/
theorem exists_met_of_converge_core {m : Merge}
    (hm : (g.core S n).converge origin elseArm.bare ifArm.bare = some m) :
    ∃ score, Best ((g.core S n).armSearch origin elseArm.bare)
        ((g.core S n).armSearch origin ifArm.bare) (g.core S n).live (some (score, m)) ∧
      Foremost ((g.core S n).armSearch origin elseArm.bare)
        ((g.core S n).armSearch origin ifArm.bare) (g.core S n).live (some (score, m)) ∧
      ∃ a b, (g.armSearch origin elseArm).lookup m.vertex = some a ∧
        (g.armSearch origin ifArm).lookup m.vertex = some b ∧ m.elseIn = a.via.bare ∧
        m.ifIn = b.via.bare ∧ score = a.distance + b.distance := by
  obtain ⟨score, hbest, hfirst⟩ := foremost_converge (hg.live_sorted.filter _) hm
  obtain ⟨a', b', ha', hb', helse', hif', hscore⟩ := hbest.met score m rfl
  refine ⟨score, hbest, hfirst, ?_⟩
  rw [armSearch_core hg hs helse helseIn] at ha'
  rw [armSearch_core hg hs hif hifIn] at hb'
  have hin := mem_of_lookup_hopsIn ha'
  rw [lookup_hopsIn hin] at ha' hb'
  obtain ⟨a, ha, rfl⟩ := Option.map_eq_some_iff.mp ha'
  obtain ⟨b, hb, rfl⟩ := Option.map_eq_some_iff.mp hb'
  exact ⟨a, b, ha, hb, helse', hif', hscore⟩

/-- Arms that start inside have the merge that they have in the core. -/
theorem converge_core :
    (g.core S n).converge origin elseArm.bare ifArm.bare =
      (g.converge origin elseArm ifArm).map Merge.bare := by
  cases hm : g.converge origin elseArm ifArm with
  | none =>
    refine Option.eq_none_iff_forall_ne_some.mpr ?_
    intro m' hm'
    obtain ⟨score, -, hfirst, a, b, ha, hb, -⟩ :=
      exists_met_of_converge_core hg hs helse hif helseIn hifIn hm'
    obtain ⟨m, hsome⟩ := exists_converge (mem_live_core.mp (hfirst score m' rfl).1).1 ha hb
    simp [hm] at hsome
  | some m =>
    have hin := mem_of_converge hg hs helseIn hifIn hm
    obtain ⟨score, hbest, hfirst⟩ := foremost_converge hg.live_sorted hm
    obtain ⟨c, d, hc, hd, helseM, hifM, hscore⟩ := hbest.met score m rfl
    have hc' : ((g.core S n).armSearch origin elseArm.bare).lookup m.vertex = some c.bare := by
      rw [armSearch_core hg hs helse helseIn, lookup_hopsIn hin, hc, Option.map_some]
    have hd' : ((g.core S n).armSearch origin ifArm.bare).lookup m.vertex = some d.bare := by
      rw [armSearch_core hg hs hif hifIn, lookup_hopsIn hin, hd, Option.map_some]
    have hseen := mem_live_core (n := n).mpr ⟨(hfirst score m rfl).1, hin⟩
    obtain ⟨m', hm'⟩ := exists_converge hseen hc' hd'
    obtain ⟨score', hbest', hfirst', a, b, ha, hb, helse', hif', hscore'⟩ :=
      exists_met_of_converge_core hg hs helse hif helseIn hifIn hm'
    have hvertex : m'.vertex = m.vertex :=
      hfirst.vertex_eq hfirst' hbest hbest' (mem_live_core.mp (hfirst' score' m' rfl).1).1 ha hb
        hscore' hseen hc' hd' hscore
    rw [hvertex] at ha hb
    obtain rfl := Option.some.inj (ha.symm.trans hc)
    obtain rfl := Option.some.inj (hb.symm.trans hd)
    rw [hm', Option.map_some]
    refine congrArg some ?_
    obtain ⟨vertex, elseIn, ifIn⟩ := m'
    simp only at hvertex helse' hif'
    rw [Merge.bare, helseM, hifM, hvertex, helse', hif']

end Converge

end Graph

end FlowRecovery

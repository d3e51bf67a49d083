import FlowRecovery.Proofs.Reduce.Core
import FlowRecovery.Proofs.Reduce.Inside
import FlowRecovery.Proofs.Reduce.Verdicts

/-! Branches of a sealed part are judged by its core. A branch outside has its arms, its merge and the
jumps that it bypasses outside, and a branch inside has them inside, with one exception: a branch that
the one leaving edge belongs to, whose arms cannot meet. So what is seen from inside of a scan is a scan
of the core, and graphs with one core give the branches of the part the same verdicts. -/

namespace FlowRecovery

open FlowRecovery.Graph

variable {S : List Int} {n : Nat} {t : Table} {g g' : Graph} {x : Int}

namespace Graph

variable {elseArm ifArm : Edge} {m : Merge}

theorem Sealed.congr (h : Sealed S g) (hedges : g'.edges = g.edges) : Sealed S g' := by
  obtain ⟨hinward, hborder, hslim⟩ := h
  refine ⟨hedges ▸ hinward, hedges ▸ hborder, ?_⟩
  simpa only [outs, hedges] using hslim

/-- What is outside leads to what is outside. -/
theorem Sealed.avoiding (h : Sealed S g) {v y : Int} (hpath : g.Avoiding v x y) (hx : x ∉ S) :
    y ∉ S := by
  refine hpath.induction (P := (· ∉ S)) hx ?_
  rintro a b ha - ⟨e, he, rfl, rfl⟩ -
  exact h.outward he ha

/-- Arms that lie outside meet outside, on their way from outside. -/
theorem Sealed.outside_of_converge (h : Sealed S g) (hm : g.converge x elseArm ifArm = some m)
    (helse : elseArm.source ∉ S ∧ elseArm.target ∉ S) (hif : ifArm.source ∉ S ∧ ifArm.target ∉ S) :
    m.vertex ∉ S ∧ m.elseIn.source ∉ S ∧ m.ifIn.source ∉ S := by
  have hvia : ∀ {arm : Edge} {queue : List (Int × Nat)} {hops : Hops} {y : Int} {hop : Hop},
      g.Searched x arm queue hops → arm.source ∉ S ∧ arm.target ∉ S → hops.lookup y = some hop →
        hop.via.source ∉ S := by
    intro arm queue hops y hop hsearch harm hy
    rcases hsearch.met y hop hy with ⟨rfl, -⟩ | ⟨-, -, before, hbefore, -⟩
    · exact harm.1
    · exact h.avoiding (hsearch.avoiding hbefore) harm.2
  obtain ⟨score, hbest⟩ := best_converge hm
  obtain ⟨a, b, ha, hb, helseIn, hifIn, -⟩ := hbest.met score m rfl
  obtain ⟨_, hsearch⟩ := searched_armSearch g x elseArm
  obtain ⟨_, hsearch'⟩ := searched_armSearch g x ifArm
  rw [helseIn, hifIn]
  exact ⟨h.avoiding (hsearch.avoiding ha) helse.2, hvia hsearch helse ha, hvia hsearch' hif hb⟩

/-- Of two edges of the vertex that the leaving edge belongs to, one leads out and the other does not. -/
theorem Sealed.sides_of_leaves (h : Sealed S g) {e f f' : Edge} (he : e ∈ g.outs x)
    (hleaves : leaves S e = true) (hf : f ∈ g.outs x) (hf' : f' ∈ g.outs x) (hne : f ≠ f') :
    ¬ (f.target ∈ S ↔ f'.target ∈ S) := by
  intro hiff
  obtain ⟨hedge, rfl⟩ := mem_outs.mp he
  obtain ⟨hfrom, hto⟩ := leaves_iff.mp hleaves
  by_cases hin : f.target ∈ S
  · have hdistinct : [f, f', e].Nodup := by
      have hne₁ : f ≠ e := fun heq => hto (heq ▸ hin)
      have hne₂ : f' ≠ e := fun heq => hto (heq ▸ hiff.mp hin)
      simp [hne, hne₁, hne₂]
    have hsub : [f, f', e] ⊆ g.outs e.source := by simp [hf, hf', he]
    have hlen := (hdistinct.subperm hsub).length_le
    have hfew := h.slim e hedge hleaves
    simp only [List.length_cons, List.length_nil] at hlen
    omega
  · have hsame : ∀ d ∈ g.outs e.source, d.target ∉ S → d = e := by
      intro d hd hout
      obtain ⟨hd, hsource⟩ := mem_outs.mp hd
      exact h.leaves_unique hd hedge (leaves_iff.mpr ⟨hsource ▸ hfrom, hout⟩) hleaves
    exact hne ((hsame f hf hin).trans (hsame f' hf' fun hmem => hin (hiff.mpr hmem)).symm)

/-- Where one arm of a branch is the leaving edge, the other stays inside. -/
theorem Sealed.converge_eq_none (h : Sealed S g) (hg : g.WellFormed) {e : Edge} (he : e ∈ g.outs x)
    (hleaves : leaves S e = true) (helse : elseArm.target ∈ g.live) (hif : ifArm.target ∈ g.live)
    (hsides : ¬ (elseArm.target ∈ S ↔ ifArm.target ∈ S)) : g.converge x elseArm ifArm = none := by
  obtain ⟨hedge, rfl⟩ := mem_outs.mp he
  have hstays : ∀ u y, u ∈ S → g.Avoiding e.source u y → y ∈ S := by
    intro u y hu hpath
    refine hpath.induction hu ?_
    rintro a b ha hne ⟨f, hf, rfl, rfl⟩ -
    by_contra hb
    exact hne (congrArg Edge.source (h.leaves_unique hf hedge (leaves_iff.mpr ⟨ha, hb⟩) hleaves))
  refine (converge_eq_none_iff hg.target_live helse hif).mpr ?_
  rintro y ⟨hfirst, hsecond⟩
  by_cases hin : elseArm.target ∈ S
  · exact h.avoiding hsecond (fun hmem => hsides (iff_of_true hin hmem)) (hstays _ y hin hfirst)
  · have hin' : ifArm.target ∈ S := by_contra fun hmem => hsides (iff_of_false hin hmem)
    exact h.avoiding hfirst hin (hstays _ y hin' hsecond)

end Graph

/-! ### A scan seen from inside -/

/-- The core and the bypassed jumps in it. -/
structure Inner where
  graph : Graph
  gone : List Int

namespace Inner

def bypass (t : Table) (dest : Int) (c : Inner) (arrival : Edge) : Inner :=
  if !c.gone.contains arrival.source && (c.graph.op? arrival.source).any (t.classify · = .jump) then
    { graph := { c.graph with edges := shift arrival.source dest c.graph.edges }
      gone := c.gone ++ [arrival.source] }
  else c

/-- What becomes of a branch, judged by the core. -/
def judge (t : Table) (c : Inner) (x : Int) : Verdict × Inner :=
  match c.graph.outs x with
  | first :: second :: rest =>
    let a := Structuring.extremes first (second :: rest)
    match c.graph.converge x a.elseArm a.ifArm with
    | none => (.skipped .noConvergence, c)
    | some m =>
      if c.graph.isLabel m.vertex then
        (.ends m.vertex, [m.elseIn, m.ifIn].foldl (bypass t m.vertex) c)
      else (.skipped .nonLabelMerge, c)
  | _ => (.skipped .noConvergence, c)

/-- The verdicts of the branches among the given vertices. -/
def verdicts (t : Table) : List Int → Inner → List Judged
  | [], _ => []
  | x :: rest, c =>
    if c.graph.isBranch t x then
      let (verdict, c) := c.judge t x
      ⟨x, verdict⟩ :: verdicts t rest c
    else verdicts t rest c

theorem judge_of_few {c : Inner} (h : (c.graph.outs x).length < 2) :
    c.judge t x = (.skipped .noConvergence, c) := by
  unfold judge
  split
  · next houts =>
    rw [houts, List.length_cons, List.length_cons] at h
    omega
  · rfl

end Inner

namespace Structuring

variable {s s₁ s' : Structuring} {v : Vertex} {a : Arms} {verdict : Verdict} {log : List Judged}
  {vs : List Int} {dest : Int} {arrival : Edge} {m : Merge}

/-- The state of a scan, seen from inside. -/
def inner (S : List Int) (n : Nat) (s : Structuring) : Inner :=
  { graph := s.graph.core S n
    gone := s.gone.filter fun x => decide (x ∈ S) }

/-- A state in which `S` is sealed. -/
structure Secure (S : List Int) (s : Structuring) : Prop where
  wellFormed : s.graph.WellFormed
  closed : Sealed S s.graph

/-! ### Bypassing jumps -/

theorem Secure.bypass (h : Secure S s) (hdest : dest ∈ s.graph.live)
    (hside : arrival.source ∈ S ↔ dest ∈ S) : Secure S (bypass t dest s arrival) := by
  unfold Structuring.bypass
  simp only
  split_ifs
  · exact ⟨h.wellFormed.reroute _ _, h.closed.reroute h.wellFormed hdest hside⟩
  · exact h

/-- A jump inside is bypassed in the core … -/
theorem inner_bypass_inside (hS : ∀ y ∈ S, 0 ≤ y ∧ y < n) (h : Secure S s)
    (hdest : dest ∈ s.graph.live) (hsource : arrival.source ∈ S) (hin : dest ∈ S) :
    (bypass t dest s arrival).inner S n = (s.inner S n).bypass t dest arrival.bare := by
  have hgone : (s.inner S n).gone.contains arrival.source = s.gone.contains arrival.source := by
    rw [Bool.eq_iff_iff, List.contains_iff_mem, List.contains_iff_mem, inner, List.mem_filter]
    simp [hsource]
  have hjump : ((s.inner S n).graph.op? arrival.source).any (t.classify · = .jump) =
      (s.graph.op? arrival.source).any (t.classify · = .jump) :=
    any_op?_core (fun _ => rfl) hS hsource
  unfold Structuring.bypass Inner.bypass
  simp only [Edge.source_bare, hgone, hjump]
  split_ifs
  · unfold inner
    simp only [core_reroute_inside h.wellFormed hdest hsource hin, List.filter_append]
    simp [hsource]
  · rfl

/-- … and one outside is not seen there. -/
theorem inner_bypass_outside (h : Secure S s) (hdest : dest ∈ s.graph.live)
    (hsource : arrival.source ∉ S) (hout : dest ∉ S) :
    (bypass t dest s arrival).inner S n = s.inner S n := by
  unfold Structuring.bypass
  simp only
  split_ifs
  · unfold inner
    simp only [core_reroute_outside h.wellFormed hdest hsource hout, List.filter_append]
    simp [hsource]
  · rfl

@[simp] theorem live_bypass : (bypass t dest s arrival).graph.live = s.graph.live := by
  unfold Structuring.bypass
  simp only
  split_ifs
  · exact live_reroute
  · rfl

section Arrivals

variable {es : List Edge}

theorem Secure.foldl_bypass (h : Secure S s) (hdest : dest ∈ s.graph.live)
    (hside : ∀ e ∈ es, e.source ∈ S ↔ dest ∈ S) :
    Secure S (es.foldl (Structuring.bypass t dest) s) := by
  induction es generalizing s with
  | nil => exact h
  | cons e es ih =>
    rw [List.forall_mem_cons] at hside
    exact ih (h.bypass hdest hside.1) (by simpa using hdest) hside.2

theorem inner_foldl_bypass_inside (hS : ∀ y ∈ S, 0 ≤ y ∧ y < n) (h : Secure S s)
    (hdest : dest ∈ s.graph.live) (hsources : ∀ e ∈ es, e.source ∈ S) (hin : dest ∈ S) :
    (es.foldl (bypass t dest) s).inner S n =
      (es.map Edge.bare).foldl (Inner.bypass t dest) (s.inner S n) := by
  induction es generalizing s with
  | nil => rfl
  | cons e es ih =>
    rw [List.forall_mem_cons] at hsources
    rw [List.foldl_cons, ih (h.bypass hdest (by simp [hsources.1, hin])) (by simpa using hdest)
        hsources.2, inner_bypass_inside hS h hdest hsources.1 hin]
    rfl

theorem inner_foldl_bypass_outside (h : Secure S s) (hdest : dest ∈ s.graph.live)
    (hsources : ∀ e ∈ es, e.source ∉ S) (hout : dest ∉ S) :
    (es.foldl (bypass t dest) s).inner S n = s.inner S n := by
  induction es generalizing s with
  | nil => rfl
  | cons e es ih =>
    rw [List.forall_mem_cons] at hsources
    rw [List.foldl_cons, ih (h.bypass hdest (by simp [hsources.1, hout])) (by simpa using hdest)
        hsources.2, inner_bypass_outside h hdest hsources.1 hout]

end Arrivals

/-! ### Opening and closing blocks -/

theorem Secure.congr (h : Secure S s) (hgraph : s'.graph = s.graph) : Secure S s' :=
  ⟨hgraph ▸ h.wellFormed, hgraph ▸ h.closed⟩

theorem Secure.addMarker (h : Secure S s) (x : Int) (mark : Marker) :
    Secure S { s with graph := s.graph.addMarker x mark } :=
  ⟨h.wellFormed.updateOp _ _, h.closed.congr (edges_updateOp _ _ _)⟩

theorem core_addMarker (x : Int) (mark : Marker) : (g.addMarker x mark).core S n = g.core S n := by
  refine ((SameActions.refl g).updateOp x (f := (·.addMarker mark)) fun _ => rfl).core ?_
  rw [edges_updateOp]

theorem Secure.opened (h : Secure S s) (v : Vertex) (a : Arms) : Secure S (s.opened v a) := by
  have helse : Secure S { s with graph := s.graph.setElse a.elseArm.id } :=
    ⟨h.wellFormed.setElse _, h.closed.moved (moved_setElse s.graph _) fun _ => Iff.rfl⟩
  exact (helse.addMarker v.id (.ifStart s.stats.found)).congr rfl

theorem core_marked (s : Structuring) (v : Vertex) (a : Arms) :
    (s.marked v a).core S n = s.graph.core S n := by
  have helse : (s.graph.setElse a.elseArm.id).core S n = s.graph.core S n := by
    refine SameActions.core ⟨rfl, rfl⟩ ?_
    rw [setElse, List.map_map]
    refine List.map_congr_left ?_
    intro e _
    simp only [Function.comp_apply]
    split_ifs <;> rfl
  rw [marked, core_addMarker, helse]

theorem inner_opened : (s.opened v a).inner S n = s.inner S n :=
  congrArg (Inner.mk · _) (core_marked s v a)

/-- The block `id` has got its end, and the jumps that led there are still in place. -/
def ended (s : Structuring) (id : Nat) (x : Int) : Structuring :=
  { s with
    graph := s.graph.addMarker x (.ifEnd id)
    stats := { s.stats with structured := s.stats.structured + 1 } }

theorem close_eq (s : Structuring) (id : Nat) (m : Merge) :
    s.close t id m = [m.elseIn, m.ifIn].foldl (bypass t m.vertex) (s.ended id m.vertex) := rfl

@[simp] theorem live_ended {id : Nat} : (s.ended id x).graph.live = s.graph.live := live_updateOp ..

theorem inner_ended {id : Nat} : (s.ended id x).inner S n = s.inner S n :=
  congrArg (Inner.mk · _) (core_addMarker x _)

theorem Secure.ended (h : Secure S s) (id : Nat) (x : Int) : Secure S (s.ended id x) :=
  (h.addMarker x (.ifEnd id)).congr rfl

/-! ### Judging branches -/

theorem extremes_bare (first : Edge) (rest : List Edge) :
    extremes first.bare (rest.map Edge.bare) = (extremes first rest).bare := by
  induction rest using List.reverseRecOn with
  | nil => rfl
  | append_singleton rest last ih =>
    rw [List.map_append, List.map_singleton, extremes_concat, ih, extremes_concat]
    simp only [Arms.bare, apply_ite Edge.bare]
    rfl

theorem target_live_marked {e : Edge} (h : Secure S s) (he : e ∈ s.graph.outs v.id) :
    e.target ∈ (s.marked v a).live := by
  simpa [marked, addMarker] using h.wellFormed.target_live e (mem_outs.mp he).1

section Inside

variable (harms : arms s.graph v = .ok a) (h : Secure S s)
  (hin : ∀ e ∈ s.graph.outs v.id, e.target ∈ S)

include harms h hin

/-- A branch with all its edges inside has its merge inside, and is entered from inside. -/
theorem inside_of_converge (hmerge : (s.marked v a).converge v.id a.elseArm a.ifArm = some m) :
    m.vertex ∈ S ∧ m.elseIn.source ∈ S ∧ m.ifIn.source ∈ S := by
  have hopened := h.opened v a
  obtain ⟨helse, hif⟩ := mem_outs_of_arms harms
  have hvertex := mem_of_converge hopened.wellFormed hopened.closed (hin _ helse) (hin _ hif) hmerge
  obtain ⟨⟨e, he, hsource, htarget⟩, f, hf, hsource', htarget'⟩ := entered_of_converge
    (drawn_marked (mem_outs.mp helse).1) (drawn_marked (mem_outs.mp hif).1) hmerge
  refine ⟨hvertex, ?_, ?_⟩
  · exact hsource ▸ hopened.closed.inward e he (htarget ▸ hvertex)
  · exact hsource' ▸ hopened.closed.inward f hf (htarget' ▸ hvertex)

/-- The core shows the arms of such a branch, and where they meet. -/
theorem judge_of_inside (hv : v.id ∈ S) :
    (s.inner S n).judge t v.id =
      match ((s.marked v a).converge v.id a.elseArm a.ifArm).map Merge.bare with
      | none => (.skipped .noConvergence, s.inner S n)
      | some m =>
        if (s.graph.core S n).isLabel m.vertex then
          (.ends m.vertex, [m.elseIn, m.ifIn].foldl (Inner.bypass t m.vertex) (s.inner S n))
        else (.skipped .nonLabelMerge, s.inner S n) := by
  have hopened := h.opened v a
  obtain ⟨helse, hif⟩ := mem_outs_of_arms harms
  have hconverge : (s.graph.core S n).converge v.id a.elseArm.bare a.ifArm.bare =
      ((s.marked v a).converge v.id a.elseArm a.ifArm).map Merge.bare := by
    rw [← core_marked s v a]
    exact converge_core hopened.wellFormed hopened.closed (target_live_marked h helse)
      (target_live_marked h hif) (hin _ helse) (hin _ hif)
  obtain ⟨first, second, rest, houts, rfl, -⟩ := arms_eq_ok harms
  have houts' := outs_core_of_forall (n := n) hv hin
  rw [houts, List.map_cons, List.map_cons] at houts'
  have hextremes := extremes_bare first (second :: rest)
  rw [List.map_cons] at hextremes
  rw [← hconverge, Inner.judge]
  simp only [inner, houts', hextremes]
  rfl

end Inside

section Settle

variable (hsettles : Settles t s v a verdict s₁) (harms : arms s.graph v = .ok a)
  (h : Secure S s)

include hsettles harms h

/-- A branch outside does not change what is seen from inside. -/
theorem Settles.outside (hv : v.id ∉ S) : Secure S s₁ ∧ s₁.inner S n = s.inner S n := by
  have hopened := h.opened v a
  cases hsettles with
  | unmet | unlabelled => exact ⟨hopened.congr rfl, inner_opened⟩
  | @closed m hmerge hlabel =>
    have harm : ∀ e ∈ s.graph.outs v.id, e.source ∉ S ∧ e.target ∉ S := by
      intro e he
      obtain ⟨hedge, hsource⟩ := mem_outs.mp he
      exact ⟨hsource ▸ hv, h.closed.outward hedge (hsource ▸ hv)⟩
    obtain ⟨helse, hif⟩ := mem_outs_of_arms harms
    obtain ⟨hvertex, helseIn, hifIn⟩ :=
      hopened.closed.outside_of_converge hmerge (harm _ helse) (harm _ hif)
    have hlive : m.vertex ∈ ((s.opened v a).ended s.stats.found m.vertex).graph.live := by
      rw [live_ended]
      exact mem_live_of_isLabel hlabel
    rw [close_eq]
    refine ⟨(hopened.ended _ _).foldl_bypass hlive (by simp [hvertex, helseIn, hifIn]), ?_⟩
    rw [inner_foldl_bypass_outside (hopened.ended _ _) hlive (by simp [helseIn, hifIn]) hvertex,
      inner_ended, inner_opened]

/-- A branch with all its edges inside is judged by the core. -/
theorem Settles.inside (hS : ∀ y ∈ S, 0 ≤ y ∧ y < n) (hv : v.id ∈ S)
    (hin : ∀ e ∈ s.graph.outs v.id, e.target ∈ S) :
    Secure S s₁ ∧ (s.inner S n).judge t v.id = (verdict, s₁.inner S n) := by
  have hopened := h.opened v a
  have hlabel' : ∀ {x}, x ∈ S → (s.graph.core S n).isLabel x = (s.marked v a).isLabel x := by
    intro x hx
    rw [← core_marked s v a, isLabel_core hS hx]
  rw [judge_of_inside harms h hin hv]
  cases hsettles with
  | unmet hmerge =>
    rw [hmerge]
    exact ⟨hopened.congr rfl, congrArg (Prod.mk _) inner_opened.symm⟩
  | @unlabelled m hmerge hlabel =>
    obtain ⟨hvertex, -⟩ := inside_of_converge harms h hin hmerge
    rw [hmerge, Option.map_some]
    simp only [Merge.bare, hlabel' hvertex, hlabel, Bool.false_eq_true, if_false]
    exact ⟨hopened.congr rfl, congrArg (Prod.mk _) inner_opened.symm⟩
  | @closed m hmerge hlabel =>
    obtain ⟨hvertex, helseIn, hifIn⟩ := inside_of_converge harms h hin hmerge
    have hlive : m.vertex ∈ ((s.opened v a).ended s.stats.found m.vertex).graph.live := by
      rw [live_ended]
      exact mem_live_of_isLabel hlabel
    rw [close_eq, hmerge, Option.map_some]
    refine ⟨(hopened.ended _ _).foldl_bypass hlive (by simp [hvertex, helseIn, hifIn]), ?_⟩
    simp only [Merge.bare, hlabel' hvertex, hlabel, if_true]
    rw [inner_foldl_bypass_inside hS (hopened.ended _ _) hlive (by simp [helseIn, hifIn]) hvertex,
      inner_ended, inner_opened]
    rfl

/-- A branch that the leaving edge belongs to is skipped. -/
theorem Settles.border {e : Edge} (he : e ∈ s.graph.outs v.id) (hleaves : leaves S e = true) :
    Secure S s₁ ∧ (s.inner S n).judge t v.id = (verdict, s₁.inner S n) := by
  have hopened := h.opened v a
  obtain ⟨hedge, hsource⟩ := mem_outs.mp he
  obtain ⟨hfrom, hto⟩ := leaves_iff.mp hleaves
  obtain ⟨helse, hif⟩ := mem_outs_of_arms harms
  have hsides := h.closed.sides_of_leaves he hleaves helse hif
    fun heq => levels_ne_of_arms harms (by rw [heq])
  have hnone : (s.marked v a).converge v.id a.elseArm a.ifArm = none := by
    obtain ⟨f, hf, -, hsame, htarget⟩ := drawn_marked (v := v) (a := a) hedge
    exact hopened.closed.converge_eq_none hopened.wellFormed
      (mem_outs.mpr ⟨hf, hsame.trans hsource⟩) (leaves_iff.mpr ⟨hsame ▸ hfrom, htarget ▸ hto⟩)
      (target_live_marked h helse) (target_live_marked h hif) hsides
  have hjudge : (s.inner S n).judge t v.id = (.skipped .noConvergence, s.inner S n) := by
    refine Inner.judge_of_few ?_
    rw [inner, outs_core (hsource ▸ hfrom), List.length_map]
    refine Nat.lt_of_lt_of_le (List.length_filter_lt_length_iff_exists.mpr ⟨e, he, ?_⟩) ?_
    · simpa using hto
    · exact hsource ▸ h.closed.slim e hedge hleaves
  rw [hjudge]
  cases hsettles with
  | unmet => exact ⟨hopened.congr rfl, congrArg (Prod.mk _) inner_opened.symm⟩
  | unlabelled hmerge | closed hmerge => simp [hnone] at hmerge

end Settle

/-- The verdicts of the branches of a sealed part depend on its core only. -/
theorem Scans.verdicts (hscan : Scans t vs s log s') (hS : ∀ y ∈ S, 0 ≤ y ∧ y < n)
    (h : Secure S s) :
    log.filter (fun j => decide (j.vertex ∈ S)) =
      (s.inner S n).verdicts t (vs.filter fun x => decide (x ∈ S)) := by
  induction hscan with
  | nil s => rfl
  | @pass x vs s s' log hplain _ ih =>
    by_cases hx : x ∈ S
    · have hplain' : (s.inner S n).graph.isBranch t x = false :=
        (any_op?_core (fun _ => rfl) hS hx).trans hplain
      rw [List.filter_cons_of_pos (by simpa using hx), Inner.verdicts, hplain']
      exact ih h
    · rw [List.filter_cons_of_neg (by simpa using hx)]
      exact ih h
  | @branch x op a verdict vs s s₁ s' log hop hclass harms hsettles _ ih =>
    by_cases hx : x ∈ S
    · have hbranch : (s.inner S n).graph.isBranch t x = true :=
        (any_op?_core (fun _ => rfl) hS hx).trans (isBranch_of_op? hop hclass)
      -- either the branch lies inside with all its edges, or the leaving edge is its own
      have hjudged : Secure S s₁ ∧ (s.inner S n).judge t x = (verdict, s₁.inner S n) := by
        by_cases hin : ∀ e ∈ s.graph.outs x, e.target ∈ S
        · exact hsettles.inside harms h hS hx hin
        · push Not at hin
          obtain ⟨e, he, hout⟩ := hin
          exact hsettles.border harms h he (leaves_iff.mpr ⟨(mem_outs.mp he).2 ▸ hx, hout⟩)
      rw [List.filter_cons_of_pos (by simpa using hx), List.filter_cons_of_pos (by simpa using hx),
        Inner.verdicts, hbranch, hjudged.2, ih hjudged.1]
      rfl
    · obtain ⟨hsecure, hinner⟩ := hsettles.outside (n := n) harms h hx
      rw [List.filter_cons_of_neg (by simpa using hx), List.filter_cons_of_neg (by simpa using hx),
        ← hinner]
      exact ih hsecure

theorem Secure.start (hg : g.WellFormed) (hs : Sealed S g) :
    Secure S { graph := g.clearAllMarkers } := by
  obtain ⟨-, hedges, hwf⟩ := foldl_clearMarkers g.live hg
  exact ⟨hwf, hs.congr hedges⟩

theorem inner_start (hg : g.WellFormed) :
    ({ graph := g.clearAllMarkers } : Structuring).inner S n = ⟨g.core S n, []⟩ := by
  obtain ⟨hsame, hedges, -⟩ := foldl_clearMarkers g.live hg
  refine congrArg (Inner.mk · []) (hsame.core ?_)
  rw [hedges]

/-- Graphs with one core give the branches of the part the same verdicts. -/
theorem Scans.verdicts_eq {log' : List Judged} {s s' : Structuring}
    (hscan : Scans t g.live { graph := g.clearAllMarkers } log s)
    (hscan' : Scans t g'.live { graph := g'.clearAllMarkers } log' s')
    (hS : ∀ y ∈ S, 0 ≤ y ∧ y < n) (hg : g.WellFormed) (hg' : g'.WellFormed) (hs : Sealed S g)
    (hs' : Sealed S g') (hcore : g.core S n = g'.core S n) :
    log.filter (fun j => decide (j.vertex ∈ S)) = log'.filter (fun j => decide (j.vertex ∈ S)) := by
  have hlive : (g.live.filter fun x => decide (x ∈ S)) = g'.live.filter fun x => decide (x ∈ S) :=
    congrArg Graph.live hcore
  rw [hscan.verdicts hS (.start hg hs), hscan'.verdicts hS (.start hg' hs'), inner_start hg,
    inner_start hg', hcore, hlive]

end Structuring

end FlowRecovery

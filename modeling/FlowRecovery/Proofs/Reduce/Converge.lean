import FlowRecovery.Graph.Reach
import FlowRecovery.Proofs.Graph.WellFormed
import FlowRecovery.Reduce.Converge

/-! Where the arms of a branch meet. A search notes with each vertex the arm itself or an edge of a
vertex that it met one step earlier, and never passes the branch; so the last edges of the two arms both
lead to the merge. They are different edges: over one edge both arms would have come to the vertex that
the edge leaves, one step earlier each, and that vertex would be nearer. -/

namespace FlowRecovery.Graph

variable {g : Graph} {origin v : Int} {arm elseArm ifArm : Edge}

/-! ### One search -/

/-- How a search along `arm` came to `x`: over the arm at once, or over an edge of a vertex met before,
one step further. -/
def MetFrom (g : Graph) (arm : Edge) (hops : Hops) (x : Int) (hop : Hop) : Prop :=
  hop = ⟨0, arm⟩ ∧ arm.target = x ∨
    hop.via ∈ g.edges ∧ hop.via.target = x ∧
      ∃ before, hops.lookup hop.via.source = some before ∧ hop.distance = before.distance + 1

/-- What a search along `arm` has noted. -/
structure Searched (g : Graph) (origin : Int) (arm : Edge) (queue : List (Int × Nat))
    (hops : Hops) : Prop where
  avoids : hops.lookup origin = none
  queued : ∀ w ∈ queue, ∃ hop, hops.lookup w.1 = some hop ∧ hop.distance = w.2
  met : ∀ x hop, hops.lookup x = some hop → g.MetFrom arm hops x hop

/-- What is noted once stays. -/
def Keeps (hops hops' : Hops) : Prop :=
  ∀ x hop, hops.lookup x = some hop → hops'.lookup x = some hop

theorem MetFrom.mono {hops hops' : Hops} {x : Int} {hop : Hop} (hkeeps : Keeps hops hops')
    (h : g.MetFrom arm hops x hop) : g.MetFrom arm hops' x hop := by
  refine h.imp_right ?_
  rintro ⟨hedge, htarget, before, hbefore, hdistance⟩
  exact ⟨hedge, htarget, before, hkeeps _ _ hbefore, hdistance⟩

namespace Searched

variable {queue : List (Int × Nat)} {hops : Hops}

theorem meet {e : Edge} {hop : Hop} (h : g.Searched origin arm queue hops) (he : e ∈ g.edges)
    (hsource : hops.lookup e.source = some hop) :
    g.Searched origin arm (Graph.meet origin (hop.distance + 1) (queue, hops) e).1
        (Graph.meet origin (hop.distance + 1) (queue, hops) e).2 ∧
      Keeps hops (Graph.meet origin (hop.distance + 1) (queue, hops) e).2 := by
  unfold Graph.meet
  split_ifs with hseen
  · exact ⟨h, fun _ _ hx => hx⟩
  · obtain ⟨horigin, hnew⟩ := not_or.mp hseen
    have hnone : hops.lookup e.target = none := Option.not_isSome_iff_eq_none.mp hnew
    have hkeeps : Keeps hops (hops ++ [(e.target, ⟨hop.distance + 1, e⟩)]) := by
      intro x a hx
      rw [List.lookup_append, hx, Option.some_or]
    have hadded : (hops ++ [(e.target, (⟨hop.distance + 1, e⟩ : Hop))]).lookup e.target =
        some ⟨hop.distance + 1, e⟩ := by
      simp [List.lookup_append, hnone]
    have hother : ∀ x, x ≠ e.target →
        (hops ++ [(e.target, (⟨hop.distance + 1, e⟩ : Hop))]).lookup x = hops.lookup x := by
      intro x hx
      have hne : (x == e.target) = false := by simpa using hx
      simp [List.lookup_append, List.lookup_cons, hne]
    refine ⟨⟨?_, ?_, ?_⟩, hkeeps⟩
    · rw [hother origin (Ne.symm horigin)]
      exact h.avoids
    · intro w hw
      rcases List.mem_append.mp hw with hw | hw
      · obtain ⟨a, ha, hdistance⟩ := h.queued w hw
        exact ⟨a, hkeeps _ _ ha, hdistance⟩
      · rw [List.mem_singleton.mp hw]
        exact ⟨_, hadded, rfl⟩
    · intro x a hx
      by_cases hxe : x = e.target
      · rw [hxe, hadded] at hx
        obtain rfl := Option.some.inj hx
        exact Or.inr ⟨he, hxe.symm, hop, hkeeps _ _ hsource, rfl⟩
      · rw [hother x hxe] at hx
        exact (h.met x a hx).mono hkeeps

theorem expand {es : List Edge} {u : Int} {hop : Hop} (h : g.Searched origin arm queue hops)
    (hes : ∀ e ∈ es, e ∈ g.edges ∧ e.source = u) (hu : hops.lookup u = some hop) :
    g.Searched origin arm (es.foldl (Graph.meet origin (hop.distance + 1)) (queue, hops)).1
      (es.foldl (Graph.meet origin (hop.distance + 1)) (queue, hops)).2 := by
  induction es generalizing queue hops with
  | nil => exact h
  | cons e es ih =>
    obtain ⟨he, hsource⟩ := hes e (List.mem_cons_self ..)
    obtain ⟨hmet, hkeeps⟩ := h.meet he (hsource ▸ hu)
    rw [List.foldl_cons]
    exact ih hmet (fun x hx => hes x (List.mem_cons_of_mem _ hx)) (hkeeps _ _ hu)

theorem spread {fuel : Nat} (h : g.Searched origin arm queue hops) :
    ∃ queue', g.Searched origin arm queue' (g.spread origin fuel queue hops) := by
  induction fuel generalizing queue hops with
  | zero => cases queue <;> exact ⟨_, h⟩
  | succ fuel ih =>
    cases queue with
    | nil => exact ⟨_, h⟩
    | cons head queue =>
      obtain ⟨u, d⟩ := head
      obtain ⟨hop, hhop, rfl⟩ := h.queued (u, d) (List.mem_cons_self ..)
      have hrest : g.Searched origin arm queue hops :=
        ⟨h.avoids, fun w hw => h.queued w (List.mem_cons_of_mem _ hw), h.met⟩
      unfold Graph.spread
      exact ih (hrest.expand (fun e he => mem_outs.mp he) hhop)

end Searched

theorem searched_armSearch (g : Graph) (origin : Int) (arm : Edge) :
    ∃ queue, g.Searched origin arm queue (g.armSearch origin arm) := by
  unfold armSearch
  split_ifs with horigin
  · exact ⟨[], by simp, by simp, by simp⟩
  · have hne : (origin == arm.target) = false := by simpa using Ne.symm horigin
    refine Searched.spread ⟨by simp [List.lookup_cons, hne], ?_, ?_⟩
    · intro w hw
      rw [List.mem_singleton.mp hw]
      exact ⟨⟨0, arm⟩, by simp, rfl⟩
    · intro x hop hx
      obtain ⟨rfl, rfl⟩ : x = arm.target ∧ hop = ⟨0, arm⟩ := by
        by_cases hx' : x = arm.target
        · subst hx'
          simpa [eq_comm] using hx
        · have hne' : (x == arm.target) = false := by simpa using hx'
          simp [List.lookup_cons, hne'] at hx
      exact Or.inl ⟨rfl, rfl⟩

/-! ### The nearest vertex -/

/-- What has been found among the vertices `seen`: a vertex met by both searches, and none of them is
nearer. -/
structure Best (fromElse fromIf : Hops) (seen : List Int) (best : Option (Nat × Merge)) : Prop where
  met : ∀ score m, best = some (score, m) → ∃ a b,
    fromElse.lookup m.vertex = some a ∧ fromIf.lookup m.vertex = some b ∧
      m.elseIn = a.via ∧ m.ifIn = b.via ∧ score = a.distance + b.distance
  least : ∀ w ∈ seen, ∀ a b, fromElse.lookup w = some a → fromIf.lookup w = some b →
    ∃ score m, best = some (score, m) ∧ score ≤ a.distance + b.distance

namespace Best

variable {fromElse fromIf : Hops} {seen : List Int} {best : Option (Nat × Merge)}

theorem nearer (h : Best fromElse fromIf seen best) (v : Int) :
    Best fromElse fromIf (seen ++ [v]) (Graph.nearer fromElse fromIf best v) := by
  unfold Graph.nearer
  split
  · next a b ha hb =>
    have hmet : ∀ score m, some (a.distance + b.distance, (⟨v, a.via, b.via⟩ : Merge)) =
        some (score, m) → ∃ a b, fromElse.lookup m.vertex = some a ∧
          fromIf.lookup m.vertex = some b ∧ m.elseIn = a.via ∧ m.ifIn = b.via ∧
          score = a.distance + b.distance := by
      intro score m heq
      obtain ⟨rfl, rfl⟩ := Prod.mk.inj (Option.some.inj heq)
      exact ⟨a, b, ha, hb, rfl, rfl, rfl⟩
    have hown : ∀ a' b', fromElse.lookup v = some a' → fromIf.lookup v = some b' →
        a.distance + b.distance = a'.distance + b'.distance := by
      intro a' b' ha' hb'
      obtain rfl := Option.some.inj (ha.symm.trans ha')
      obtain rfl := Option.some.inj (hb.symm.trans hb')
      rfl
    cases best with
    | none =>
      refine ⟨hmet, ?_⟩
      intro w hw a' b' ha' hb'
      rcases List.mem_append.mp hw with hw | hw
      · obtain ⟨score, m, hbest, -⟩ := h.least w hw a' b' ha' hb'
        simp at hbest
      · rw [List.mem_singleton.mp hw] at ha' hb'
        exact ⟨_, _, rfl, Nat.le_of_eq (hown a' b' ha' hb')⟩
    | some kept =>
      obtain ⟨least, kept⟩ := kept
      simp only
      split_ifs with hless
      · refine ⟨hmet, ?_⟩
        intro w hw a' b' ha' hb'
        rcases List.mem_append.mp hw with hw | hw
        · obtain ⟨score, m, hbest, hle⟩ := h.least w hw a' b' ha' hb'
          obtain ⟨rfl, -⟩ := Prod.mk.inj (Option.some.inj hbest)
          exact ⟨_, _, rfl, by omega⟩
        · rw [List.mem_singleton.mp hw] at ha' hb'
          exact ⟨_, _, rfl, Nat.le_of_eq (hown a' b' ha' hb')⟩
      · refine ⟨h.met, ?_⟩
        intro w hw a' b' ha' hb'
        rcases List.mem_append.mp hw with hw | hw
        · exact h.least w hw a' b' ha' hb'
        · rw [List.mem_singleton.mp hw] at ha' hb'
          have heq := hown a' b' ha' hb'
          exact ⟨_, _, rfl, by omega⟩
  · next hnone =>
    refine ⟨h.met, ?_⟩
    intro w hw a b ha hb
    rcases List.mem_append.mp hw with hw | hw
    · exact h.least w hw a b ha hb
    · rw [List.mem_singleton.mp hw] at ha hb
      exact absurd hb (hnone a b ha)

theorem foldl (h : Best fromElse fromIf seen best) (vs : List Int) :
    Best fromElse fromIf (seen ++ vs) (vs.foldl (Graph.nearer fromElse fromIf) best) := by
  induction vs generalizing seen best with
  | nil => simpa using h
  | cons v vs ih => simpa using ih (h.nearer v)

end Best

theorem best_converge {m : Merge} (h : g.converge origin elseArm ifArm = some m) :
    ∃ score, Best (g.armSearch origin elseArm) (g.armSearch origin ifArm) g.live
      (some (score, m)) := by
  obtain ⟨⟨score, m⟩, hfold, rfl⟩ := Option.map_eq_some_iff.mp h
  have hstart : Best (g.armSearch origin elseArm) (g.armSearch origin ifArm) [] none :=
    ⟨by simp, by simp⟩
  have hbest := hstart.foldl g.live
  rw [List.nil_append, hfold] at hbest
  exact ⟨score, hbest⟩

/-! ### The last edges of the arms -/

/-- An edge with the number, the source and the target of `e`. -/
def Drawn (g : Graph) (e : Edge) : Prop :=
  ∃ f ∈ g.edges, f.id = e.id ∧ f.source = e.source ∧ f.target = e.target

/-- The last edges of both arms lead to the merge. -/
def Entered (g : Graph) (m : Merge) : Prop :=
  g.Step m.elseIn.source m.vertex ∧ g.Step m.ifIn.source m.vertex

theorem MetFrom.drawn {hops : Hops} {x : Int} {hop : Hop} (h : g.MetFrom arm hops x hop)
    (harm : g.Drawn arm) : g.Drawn hop.via ∧ hop.via.target = x := by
  rcases h with ⟨rfl, htarget⟩ | ⟨hedge, htarget, -⟩
  · exact ⟨harm, htarget⟩
  · exact ⟨⟨hop.via, hedge, rfl, rfl, rfl⟩, htarget⟩

/-- No search goes on over an edge of the branch. -/
theorem Searched.id_ne {queue : List (Int × Nat)} {hops : Hops} {e f : Edge} {before : Hop}
    (h : g.Searched origin arm queue hops) (hg : g.WellFormed) (he : g.Drawn e)
    (hsource : e.source = origin) (hf : f ∈ g.edges) (hmet : hops.lookup f.source = some before) :
    e.id ≠ f.id := by
  intro hid
  obtain ⟨e', he', hid', hsource', -⟩ := he
  obtain rfl : e' = f := hg.eq_of_id_eq he' hf (hid'.trans hid)
  rw [hsource', hsource, h.avoids] at hmet
  simp at hmet

section Converge

variable {m : Merge} (helse : g.Drawn elseArm) (hif : g.Drawn ifArm)
  (h : g.converge origin elseArm ifArm = some m)

include helse hif h

theorem drawn_of_converge :
    (g.Drawn m.elseIn ∧ m.elseIn.target = m.vertex) ∧ g.Drawn m.ifIn ∧ m.ifIn.target = m.vertex := by
  obtain ⟨score, hbest⟩ := best_converge h
  obtain ⟨a, b, ha, hb, helseIn, hifIn, -⟩ := hbest.met score m rfl
  obtain ⟨_, hs⟩ := searched_armSearch g origin elseArm
  obtain ⟨_, hs'⟩ := searched_armSearch g origin ifArm
  rw [helseIn, hifIn]
  exact ⟨(hs.met _ a ha).drawn helse, (hs'.met _ b hb).drawn hif⟩

theorem entered_of_converge : g.Entered m := by
  obtain ⟨⟨⟨e, he, -, hsource, htarget⟩, helseIn⟩, ⟨f, hf, -, hsource', htarget'⟩, hifIn⟩ :=
    drawn_of_converge helse hif h
  exact ⟨⟨e, he, hsource, htarget.trans helseIn⟩, ⟨f, hf, hsource', htarget'.trans hifIn⟩⟩

/-- Two different edges enter the merge. -/
theorem ids_ne_of_converge (hg : g.WellFormed) (hsource : elseArm.source = origin)
    (hsource' : ifArm.source = origin) (hne : elseArm.id ≠ ifArm.id) : m.elseIn.id ≠ m.ifIn.id := by
  obtain ⟨score, hbest⟩ := best_converge h
  obtain ⟨a, b, ha, hb, helseIn, hifIn, hscore⟩ := hbest.met score m rfl
  obtain ⟨_, hs⟩ := searched_armSearch g origin elseArm
  obtain ⟨_, hs'⟩ := searched_armSearch g origin ifArm
  rw [helseIn, hifIn]
  rcases hs.met _ a ha with ⟨rfl, -⟩ | ⟨hedge, -, before, hbefore, hdistance⟩
  · rcases hs'.met _ b hb with ⟨rfl, -⟩ | ⟨hedge', -, before', hbefore', -⟩
    · exact hne
    · exact hs'.id_ne hg helse hsource hedge' hbefore'
  · rcases hs'.met _ b hb with ⟨rfl, -⟩ | ⟨hedge', -, before', hbefore', hdistance'⟩
    · exact (hs.id_ne hg hif hsource' hedge hbefore).symm
    · -- over one edge both arms would have met at its source, which is nearer
      intro hid
      rw [← hg.eq_of_id_eq hedge hedge' hid] at hbefore'
      obtain ⟨least, m', heq, hle⟩ := hbest.least a.via.source (hg.source_live _ hedge) before before'
        hbefore hbefore'
      obtain ⟨rfl, -⟩ := Prod.mk.inj (Option.some.inj heq)
      omega

theorem two_le_ins_of_converge (hg : g.WellFormed) (hsource : elseArm.source = origin)
    (hsource' : ifArm.source = origin) (hne : elseArm.id ≠ ifArm.id) :
    2 ≤ (g.ins m.vertex).length := by
  have hids := ids_ne_of_converge helse hif h hg hsource hsource' hne
  obtain ⟨⟨⟨e, he, hid, -, htarget⟩, helseIn⟩, ⟨f, hf, hid', -, htarget'⟩, hifIn⟩ :=
    drawn_of_converge helse hif h
  have heins : e ∈ g.ins m.vertex := mem_ins.mpr ⟨he, htarget.trans helseIn⟩
  have hfins : f ∈ g.ins m.vertex := mem_ins.mpr ⟨hf, htarget'.trans hifIn⟩
  by_contra hfew
  have hone : (g.ins m.vertex).length = 1 := by
    have hpos := List.length_pos_of_mem heins
    omega
  obtain ⟨o, ho⟩ := List.length_eq_one_iff.mp hone
  rw [ho, List.mem_singleton] at heins hfins
  refine hids ?_
  rw [← hid, ← hid', heins, hfins]

end Converge

end FlowRecovery.Graph

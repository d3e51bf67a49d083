import FlowRecovery.Proofs.Reduce.Core

/-! The nearest merge. A search works off its queue in the order of distances: what waits is at most one
step farther than what is expanded. So a vertex is noted at the length of a shortest path that avoids the
branch, with the last edge of such a path. The merge is the first of the vertices with the smallest sum of
two such lengths, and no vertex that both arms lead to is overlooked. -/

namespace FlowRecovery.Graph

variable {g : Graph} {origin v x y : Int} {arm elseArm ifArm : Edge} {es new : List Edge} {hop : Hop}
  {queue : List (Int × Nat)} {hops res : Hops} {d n : Nat}

/-! ### Paths by their edges -/

/-- The edges of the list lead on from `x`, one after the other, and neither `x` nor anything that they
lead to is `v`. -/
inductive Route (g : Graph) (v x : Int) : List Edge → Int → Prop
  | start (hx : x ≠ v) : Route g v x [] x
  | onward {es : List Edge} {e : Edge} (before : Route g v x es e.source) (he : e ∈ g.edges)
      (hne : e.target ≠ v) : Route g v x (es ++ [e]) e.target

/-- No route with the same ends has fewer edges. -/
structure Shortest (g : Graph) (v x : Int) (es : List Edge) (y : Int) : Prop where
  route : g.Route v x es y
  least : ∀ fs, g.Route v x fs y → es.length ≤ fs.length

theorem avoiding_iff : g.Avoiding v x y ↔ ∃ es, g.Route v x es y := by
  constructor
  · intro hpath
    refine hpath.induction (P := fun y => ∃ es, g.Route v x es y) ⟨[], .start hpath.1⟩ ?_
    rintro a b ⟨es, hes⟩ - ⟨e, he, rfl, rfl⟩ hne
    exact ⟨es ++ [e], .onward hes he hne⟩
  · rintro ⟨es, hroute⟩
    induction hroute with
    | start hx => exact .refl hx
    | onward _ he hne ih => exact ih.tail ⟨_, he, rfl, rfl⟩ hne

/-- What a search has noted it has come to on a route of the length noted, over the edge noted. -/
theorem Searched.exists_route (h : g.Searched origin arm queue hops) (hx : hops.lookup x = some hop) :
    ∃ es, g.Route origin arm.target es x ∧ es.length = hop.distance ∧ es.getLastD arm = hop.via := by
  have hne : ∀ z hop, hops.lookup z = some hop → z ≠ origin := by
    rintro z hop hz rfl
    rw [h.avoids] at hz
    simp at hz
  induction hdistance : hop.distance generalizing x hop with
  | zero =>
    rcases h.met x hop hx with ⟨rfl, rfl⟩ | ⟨-, -, before, -, hlate⟩
    · exact ⟨[], .start (hne _ _ hx), rfl, rfl⟩
    · omega
  | succ n ih =>
    rcases h.met x hop hx with ⟨rfl, -⟩ | ⟨hedge, rfl, before, hbefore, hlate⟩
    · simp at hdistance
    · obtain ⟨es, hroute, hlength, -⟩ := ih hbefore (by omega)
      refine ⟨es ++ [hop.via], .onward hroute hedge (hne _ _ hx), ?_, List.getLastD_concat⟩
      rw [List.length_append, List.length_singleton, hlength]

/-! ### The order of the queue -/

/-- The vertex `x` has been noted at the distance `n` or nearer. -/
def NotedWithin (hops : Hops) (x : Int) (n : Nat) : Prop :=
  ∃ hop, hops.lookup x = some hop ∧ hop.distance ≤ n

/-- The queue ascends by distance, nothing has been noted more than one step farther than what waits, and
a vertex that no longer waits has its targets noted at most one step farther than itself. -/
structure Layered (g : Graph) (origin : Int) (queue : List (Int × Nat)) (hops : Hops) : Prop where
  distinct : (noted hops).Nodup
  ascends : queue.Pairwise fun a b => a.2 ≤ b.2
  queued : ∀ w ∈ queue, ∃ hop, hops.lookup w.1 = some hop ∧ hop.distance = w.2
  close : ∀ w ∈ queue, ∀ x hop, hops.lookup x = some hop → hop.distance ≤ w.2 + 1
  covered : ∀ x hop, hops.lookup x = some hop → x ∈ queue.map Prod.fst ∨
    ∀ e ∈ g.outs x, e.target ≠ origin → NotedWithin hops e.target (hop.distance + 1)

theorem keeps_append (more : Hops) : Keeps hops (hops ++ more) := by
  intro x hop hx
  rw [List.lookup_append, hx, Option.some_or]

theorem NotedWithin.mono {hops' : Hops} (hkeeps : Keeps hops hops') (h : NotedWithin hops x n) :
    NotedWithin hops' x n := by
  obtain ⟨hop, hhop, hle⟩ := h
  exact ⟨hop, hkeeps x hop hhop, hle⟩

/-- What is noted once the edges `new` have been followed to vertices at the distance `d`. -/
def metAt (d : Nat) (hops : Hops) (new : List Edge) : Hops :=
  hops ++ new.map fun e => (e.target, ⟨d, e⟩)

theorem lookup_metAt (h : (metAt d hops new).lookup x = some hop) :
    hops.lookup x = some hop ∨ x ∈ new.map Edge.target ∧ hop.distance = d := by
  rw [metAt, List.lookup_append, Option.or_eq_some_iff] at h
  refine h.imp_right ?_
  rintro ⟨-, hnew⟩
  obtain ⟨before, after, heq, -⟩ := List.lookup_eq_some_iff.mp hnew
  have hmem : (x, hop) ∈ new.map fun e => (e.target, (⟨d, e⟩ : Hop)) := by simp [heq]
  obtain ⟨e, he, hpair⟩ := List.mem_map.mp hmem
  obtain ⟨rfl, rfl⟩ := Prod.mk.inj hpair
  exact ⟨List.mem_map_of_mem he, rfl⟩

theorem exists_lookup_metAt (hx : x ∈ noted hops ++ new.map Edge.target) :
    ∃ hop, (metAt d hops new).lookup x = some hop := by
  rw [← noted_append (d := d)] at hx
  exact Option.isSome_iff_exists.mp (isSome_lookup_iff.mpr hx)

namespace Layered

section Expand

variable (h : g.Layered origin ((v, d) :: queue) hops)

include h

/-- What waits behind the vertex in front is at most one step farther. -/
theorem le_succ_of_mem {w : Int × Nat} (hw : w ∈ queue) : d ≤ w.2 ∧ w.2 ≤ d + 1 := by
  obtain ⟨hop, hhop, hdistance⟩ := h.queued w (List.mem_cons_of_mem _ hw)
  refine ⟨(List.pairwise_cons.mp h.ascends).1 w hw, ?_⟩
  rw [← hdistance]
  exact h.close (v, d) (List.mem_cons_self ..) w.1 hop hhop

/-- After the vertex in front has been expanded, nothing is noted farther than one step behind it. -/
theorem distance_le (hx : (metAt (d + 1) hops new).lookup x = some hop) : hop.distance ≤ d + 1 := by
  rcases lookup_metAt hx with hold | ⟨-, hdistance⟩
  · exact h.close (v, d) (List.mem_cons_self ..) x hop hold
  · exact Nat.le_of_eq hdistance

theorem ascends_expand :
    (queue ++ new.map fun e => (e.target, d + 1)).Pairwise fun a b => a.2 ≤ b.2 := by
  refine List.pairwise_append.mpr ⟨(List.pairwise_cons.mp h.ascends).2, ?_, ?_⟩
  · exact List.pairwise_map.mpr (List.pairwise_of_forall fun _ _ => Nat.le_refl _)
  · intro a ha b hb
    obtain ⟨e, -, rfl⟩ := List.mem_map.mp hb
    exact (h.le_succ_of_mem ha).2

theorem queued_expand (hnodup : (noted hops ++ new.map Edge.target).Nodup) :
    ∀ w ∈ queue ++ new.map fun e => (e.target, d + 1),
      ∃ hop, (metAt (d + 1) hops new).lookup w.1 = some hop ∧ hop.distance = w.2 := by
  intro w hw
  rcases List.mem_append.mp hw with hw | hw
  · obtain ⟨hop, hhop, hdistance⟩ := h.queued w (List.mem_cons_of_mem _ hw)
    exact ⟨hop, keeps_append _ _ _ hhop, hdistance⟩
  · obtain ⟨e, he, rfl⟩ := List.mem_map.mp hw
    have hmem : e.target ∈ new.map Edge.target := List.mem_map_of_mem he
    obtain ⟨hop, hhop⟩ := exists_lookup_metAt (d := d + 1) (List.mem_append_right (noted hops) hmem)
    refine ⟨hop, hhop, ?_⟩
    rcases lookup_metAt hhop with hold | ⟨-, hdistance⟩
    · have hnoted := isSome_lookup_iff.mp (Option.isSome_of_eq_some hold)
      exact absurd hmem ((List.nodup_append.mp hnodup).2.2 _ hnoted _ · rfl)
    · exact hdistance

/-- Expanding the vertex in front: the targets met for the first time go to the end of the queue. -/
theorem expand (hnodup : (noted hops ++ new.map Edge.target).Nodup)
    (hcover : ∀ e ∈ g.outs v, e.target ≠ origin → e.target ∈ noted hops ++ new.map Edge.target) :
    g.Layered origin (queue ++ new.map fun e => (e.target, d + 1)) (metAt (d + 1) hops new) := by
  refine ⟨noted_append new ▸ hnodup, h.ascends_expand, h.queued_expand hnodup, ?_, ?_⟩
  · intro w hw x hop hx
    have hle := h.distance_le hx
    rcases List.mem_append.mp hw with hw | hw
    · have hwait := (h.le_succ_of_mem hw).1
      omega
    · obtain ⟨e, -, rfl⟩ := List.mem_map.mp hw
      exact Nat.le_succ_of_le hle
  · intro x hop hx
    rcases lookup_metAt hx with hold | ⟨hnew, -⟩
    · rcases h.covered x hop hold with hwait | hdone
      · rcases List.mem_cons.mp hwait with rfl | hwait
        · -- the vertex in front: each of its targets was there or has just been noted
          obtain ⟨own, hown, hdistance⟩ := h.queued (x, d) (List.mem_cons_self ..)
          obtain rfl := Option.some.inj (hown.symm.trans hold)
          refine Or.inr fun e he hne => ?_
          obtain ⟨hop', hhop'⟩ := exists_lookup_metAt (d := d + 1) (hcover e he hne)
          exact ⟨hop', hhop', hdistance ▸ h.distance_le hhop'⟩
        · exact Or.inl (by simpa using Or.inl hwait)
      · exact Or.inr fun e he hne => (hdone e he hne).mono (keeps_append _)
    · exact Or.inl (by simpa using Or.inr hnew)

end Expand

/-- Routes lead to noted vertices that are no farther than the routes are long. -/
theorem notedWithin (h : g.Layered origin [] hops) (hx : NotedWithin hops x 0)
    (hroute : g.Route origin x es y) : NotedWithin hops y es.length := by
  induction hroute with
  | start => exact hx
  | @onward es e _ he hne ih =>
    obtain ⟨hop, hhop, hle⟩ := ih
    rcases h.covered e.source hop hhop with hwait | hdone
    · simp at hwait
    · obtain ⟨hop', hhop', hle'⟩ := hdone e (mem_outs.mpr ⟨he, rfl⟩) hne
      refine ⟨hop', hhop', ?_⟩
      rw [List.length_append, List.length_singleton]
      omega

end Layered

theorem Spreads.layered (h : Spreads g origin queue hops res) (hlayered : g.Layered origin queue hops) :
    g.Layered origin [] res ∧ Keeps hops res := by
  induction h with
  | done hops => exact ⟨hlayered, fun _ _ hx => hx⟩
  | @expand v d queue hops res rest ih =>
    obtain ⟨new, heq, -, hnodup, hcover⟩ := exists_met origin (d + 1) (g.outs v) queue hops
    rw [heq] at ih
    obtain ⟨hres, hkeeps⟩ := ih (hlayered.expand (hnodup hlayered.distinct) hcover)
    exact ⟨hres, fun x hop hx => hkeeps x hop (keeps_append _ x hop hx)⟩

/-! ### Searches -/

section Search

variable (hlive : ∀ e ∈ g.edges, e.target ∈ g.live) (harm : arm.target ∈ g.live)

include hlive harm

theorem notedWithin_armSearch (hroute : g.Route origin arm.target es x) :
    NotedWithin (g.armSearch origin arm) x es.length := by
  have hne : arm.target ≠ origin := (avoiding_iff.mpr ⟨es, hroute⟩).1
  have hstart : g.Layered origin [(arm.target, 0)] [(arm.target, ⟨0, arm⟩)] := by
    have hown : ∀ x hop, List.lookup x [(arm.target, (⟨0, arm⟩ : Hop))] = some hop →
        x = arm.target ∧ hop = ⟨0, arm⟩ := by
      intro x hop hx
      rw [List.lookup_cons] at hx
      split at hx
      · next heq => exact ⟨by simpa using heq, (Option.some.inj hx).symm⟩
      · simp at hx
    refine ⟨by simp [noted], List.pairwise_singleton _ _, ?_, ?_, ?_⟩
    · intro w hw
      rw [List.mem_singleton.mp hw]
      exact ⟨⟨0, arm⟩, List.lookup_cons_self, rfl⟩
    · intro w _ x hop hx
      rw [(hown x hop hx).2]
      exact Nat.zero_le _
    · intro x hop hx
      exact Or.inl (by simp [(hown x hop hx).1])
  obtain ⟨hres, hkeeps⟩ := (spreads_armSearch hlive harm hne).layered hstart
  exact hres.notedWithin ⟨⟨0, arm⟩, hkeeps _ _ List.lookup_cons_self, Nat.le_refl 0⟩ hroute

/-- A vertex is noted at the length of a shortest route, with the last edge of one; where the arm leads at
once, that is the arm itself. -/
theorem exists_shortest (hx : (g.armSearch origin arm).lookup x = some hop) :
    ∃ es, g.Shortest origin arm.target es x ∧ es.length = hop.distance ∧ es.getLastD arm = hop.via := by
  obtain ⟨queue, hs⟩ := searched_armSearch g origin arm
  obtain ⟨es, hroute, hlength, hlast⟩ := hs.exists_route hx
  refine ⟨es, ⟨hroute, ?_⟩, hlength, hlast⟩
  intro fs hfs
  obtain ⟨hop', hhop', hle⟩ := notedWithin_armSearch hlive harm hfs
  obtain rfl := Option.some.inj (hhop'.symm.trans hx)
  rwa [hlength]

end Search

/-! ### The merge -/

/-- The merge `m` of two arms, to which `es` leads from the one and `fs` from the other. Both are shortest
routes, no vertex is nearer to both arms together and none that is as near comes first, and the edges noted
with the merge are the last ones of the two ways: of the routes, or the arms themselves. -/
structure NearestMerge (g : Graph) (origin : Int) (elseArm ifArm : Edge) (m : Merge)
    (es fs : List Edge) : Prop where
  fromElse : g.Shortest origin elseArm.target es m.vertex
  fromIf : g.Shortest origin ifArm.target fs m.vertex
  nearest : ∀ y es' fs', g.Route origin elseArm.target es' y → g.Route origin ifArm.target fs' y →
    es.length + fs.length ≤ es'.length + fs'.length
  first : ∀ y es' fs', g.Route origin elseArm.target es' y → g.Route origin ifArm.target fs' y →
    es'.length + fs'.length = es.length + fs.length → m.vertex ≤ y
  elseIn : m.elseIn = es.getLastD elseArm
  ifIn : m.ifIn = fs.getLastD ifArm
  apart : m.elseIn ≠ m.ifIn

/-- Two arms of a branch have no merge exactly if no vertex is on routes of both that avoid the branch.
Otherwise their merge is the first of the nearest such vertices, entered over two different edges. -/
theorem converge_finds_nearest (hg : g.WellFormed) (helse : elseArm ∈ g.outs origin)
    (hif : ifArm ∈ g.outs origin) (hne : elseArm ≠ ifArm) :
    (g.converge origin elseArm ifArm = none ↔
      ∀ y, ¬ ((∃ es, g.Route origin elseArm.target es y) ∧
        ∃ fs, g.Route origin ifArm.target fs y)) ∧
    ∀ m, g.converge origin elseArm ifArm = some m →
      ∃ es fs, g.NearestMerge origin elseArm ifArm m es fs := by
  obtain ⟨helse, hsource⟩ := mem_outs.mp helse
  obtain ⟨hif, hsource'⟩ := mem_outs.mp hif
  have helseLive := hg.target_live elseArm helse
  have hifLive := hg.target_live ifArm hif
  refine ⟨?_, ?_⟩
  · simp only [← avoiding_iff]
    exact converge_eq_none_iff hg.target_live helseLive hifLive
  · intro m hm
    obtain ⟨score, hbest, hfirst⟩ := foremost_converge hg.live_sorted hm
    obtain ⟨a, b, ha, hb, helseIn, hifIn, hscore⟩ := hbest.met score m rfl
    obtain ⟨es, hes, hlength, hlast⟩ := exists_shortest hg.target_live helseLive ha
    obtain ⟨fs, hfs, hlength', hlast'⟩ := exists_shortest hg.target_live hifLive hb
    have hmet : ∀ y es' fs', g.Route origin elseArm.target es' y →
        g.Route origin ifArm.target fs' y → y ∈ g.live ∧ ∃ a b,
          (g.armSearch origin elseArm).lookup y = some a ∧
          (g.armSearch origin ifArm).lookup y = some b ∧
          a.distance + b.distance ≤ es'.length + fs'.length := by
      intro y es' fs' hes' hfs'
      obtain ⟨a', ha', hle⟩ := notedWithin_armSearch hg.target_live helseLive hes'
      obtain ⟨b', hb', hle'⟩ := notedWithin_armSearch hg.target_live hifLive hfs'
      refine ⟨?_, a', b', ha', hb', Nat.add_le_add hle hle'⟩
      cases hes' with
      | start => exact helseLive
      | onward _ he _ => exact hg.target_live _ he
    refine ⟨es, fs, hes, hfs, ?_, ?_, helseIn.trans hlast.symm, hifIn.trans hlast'.symm, ?_⟩
    · intro y es' fs' hes' hfs'
      obtain ⟨hy, a', b', ha', hb', hle⟩ := hmet y es' fs' hes' hfs'
      obtain ⟨least, m', heq, hleast⟩ := hbest.least y hy a' b' ha' hb'
      obtain ⟨rfl, -⟩ := Prod.mk.inj (Option.some.inj heq)
      omega
    · intro y es' fs' hes' hfs' htie
      obtain ⟨hy, a', b', ha', hb', hle⟩ := hmet y es' fs' hes' hfs'
      by_contra hlt
      have hfar := (hfirst score m rfl).2 y hy (Int.not_le.mp hlt) a' b' ha' hb'
      omega
    · intro heq
      refine ids_ne_of_converge ⟨elseArm, helse, rfl, rfl, rfl⟩ ⟨ifArm, hif, rfl, rfl, rfl⟩ hm hg hsource
        hsource' ?_ (by rw [heq])
      exact fun hid => hne (hg.eq_of_id_eq helse hif hid)

/-- A branch out of a loop, and one back to its head in front of the label where the arms meet. -/
def retryLoop : Routine :=
  { id := 1
    ops :=
      [.label 1, .labelJump { code := { name := "BranchValue" } } ⟨1, 2⟩,
        .labelJump { code := { name := "BranchValue" } } ⟨1, 1⟩, .label 2,
        .plain { code := { name := "Return" } }] }

theorem retryLoop_finds_nearest :
    ∃ g stats lo hi m, retryLoop.build .default = .ok (g, stats) ∧ g.outs 1 = [lo, hi] ∧ lo ≠ hi ∧
      g.converge 1 lo hi = some m ∧ m.vertex = 3 ∧ (m.elseIn.source, m.ifIn.source) = (2, 1) ∧
      (g.converge 1 lo hi = none ↔
        ∀ y, ¬ ((∃ es, g.Route 1 lo.target es y) ∧ ∃ fs, g.Route 1 hi.target fs y)) ∧
      ∀ m, g.converge 1 lo hi = some m → ∃ es fs, g.NearestMerge 1 lo hi m es fs := by
  refine ⟨_, _, _, _, _, rfl, rfl, by decide, rfl, rfl, rfl, ?_⟩
  exact converge_finds_nearest (wellFormed_of_build (r := retryLoop) (t := .default) rfl).1
    (by decide) (by decide) (by decide)

end FlowRecovery.Graph

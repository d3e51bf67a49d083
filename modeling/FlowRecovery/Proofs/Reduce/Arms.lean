import FlowRecovery.Proofs.Flow.Levels
import FlowRecovery.Proofs.Reduce.Merge
import Mathlib.Data.List.Induction

/-! When structuring fails. Both passes keep the edges of every vertex that is left, with their levels,
and neither removes a branch. So the scan meets each branch with as many edges as the built graph gives
it and at levels that differ, and the first branch with fewer than two edges ends it: there is nothing
else that a built graph can be faulted for. -/

namespace FlowRecovery

open FlowRecovery.Graph

variable {t : Table} {g g₀ g' : Graph} {v : Vertex} {x : Int}

namespace Graph

/-- A branch stands at `x`, and fewer than two edges leave it. -/
def lacksArm (g : Graph) (t : Table) (x : Int) : Bool :=
  (g.op? x).any (t.classify · = .branch) && decide (g.outDegree x < 2)

/-- What is said of the operation at `x` if it lacks an arm. -/
def complaint? (g : Graph) (x : Int) : Option Fault :=
  (g.op? x).map fun op =>
    Structuring.ambiguous ⟨x, op.clearMarkers⟩ (toString (g.outDegree x) ++ " out-edges, want 2")

theorem op?_of_lacksArm (h : g.lacksArm t x = true) :
    ∃ op, g.op? x = some op ∧ t.classify op = .branch := by
  obtain ⟨op, hop, hclass⟩ := (Option.any_eq_true _ _).mp (Bool.and_eq_true_iff.mp h).1
  exact ⟨op, hop, of_decide_eq_true hclass⟩

theorem mem_live_of_lacksArm (h : g.lacksArm t x = true) : x ∈ g.live := by
  obtain ⟨op, hop, -⟩ := op?_of_lacksArm h
  exact mem_live_of_op? hop

/-! ### Edges and levels -/

/-- Edges that keep what they say of the flow keep their levels. -/
theorem levels_perm {f : Int → Int}
    (h : ((g'.outs x).map fun e => (e.attrs.flow, e.target)).Perm
      ((g.outs x).map fun e => (e.attrs.flow, f e.target))) :
    (g'.levels x).Perm (g.levels x) := by
  have hlevels := h.map fun p => p.1.1
  rw [List.map_map, List.map_map] at hlevels
  exact hlevels

theorem length_levels : (g.levels x).length = g.outDegree x := List.length_map _

/-! ### Markers -/

theorem op?_updateOp (hg : g.WellFormed) (id x : Int) (f : Operation → Operation) :
    (g.updateOp id f).op? x = if x = id then (g.op? x).map f else g.op? x := by
  by_cases hx : x ∈ g.live
  · by_cases hid : id ∈ g.live
    · have hinside := (hg.live_inside x hx).1
      have hinside' := (hg.live_inside id hid).1
      have hiff : id.toNat = x.toNat ↔ x = id := by omega
      have hlive : (g.updateOp id f).has x = true := has_iff.mpr (by simpa using hx)
      rw [op?, op?, if_pos hlive, if_pos (has_iff.mpr hx), updateOp, if_pos (has_iff.mpr hid),
        List.getElem?_modify]
      simp only [hiff]
      split_ifs <;> simp
    · have hne : x ≠ id := fun heq => hid (heq ▸ hx)
      rw [updateOp, if_neg (by simpa using hid), if_neg hne]
  · have hnone : (g.updateOp id f).op? x = none := op?_of_not_mem (by simpa using hx)
    rw [hnone, op?_of_not_mem hx]
    simp

theorem op?_foldl_clearMarkers (hg : g.WellFormed) (vs : List Int) (x : Int) :
    (vs.foldl clearMarkers g).op? x =
      if x ∈ vs then (g.op? x).map Operation.clearMarkers else g.op? x := by
  induction vs generalizing g with
  | nil => simp
  | cons v vs ih =>
    have hfirst : (g.clearMarkers v).op? x =
        if x = v then (g.op? x).map Operation.clearMarkers else g.op? x := op?_updateOp hg v x _
    have hwf : (g.clearMarkers v).WellFormed := hg.updateOp v Operation.clearMarkers
    rw [List.foldl_cons, ih hwf, hfirst]
    have htwice : ((g.op? x).map Operation.clearMarkers).map Operation.clearMarkers =
        (g.op? x).map Operation.clearMarkers := by
      rw [Option.map_map]
      rfl
    by_cases hv : x = v
    · have hmem : x ∈ v :: vs := hv ▸ List.mem_cons_self ..
      rw [if_pos hv, if_pos hmem, htwice, ite_self]
    · simp [hv]

theorem op?_clearAllMarkers (hg : g.WellFormed) (x : Int) :
    g.clearAllMarkers.op? x = (g.op? x).map Operation.clearMarkers := by
  unfold clearAllMarkers
  rw [op?_foldl_clearMarkers hg]
  split_ifs with hx
  · rfl
  · rw [op?_of_not_mem hx]
    rfl

end Graph

namespace Structuring

/-! ### Choosing the arms -/

/-- The level of `e` is between those of the arms. -/
def Between (a : Arms) (e : Edge) : Prop :=
  a.elseArm.attrs.level ≤ e.attrs.level ∧ e.attrs.level ≤ a.ifArm.attrs.level

theorem extremes_concat (first last : Edge) (rest : List Edge) :
    extremes first (rest ++ [last]) =
      { elseArm :=
          if last.attrs.level < (extremes first rest).elseArm.attrs.level then last
          else (extremes first rest).elseArm
        ifArm :=
          if (extremes first rest).ifArm.attrs.level < last.attrs.level then last
          else (extremes first rest).ifArm } := by
  rw [extremes, List.foldl_append]
  rfl

theorem between_extremes (first : Edge) (rest : List Edge) :
    ∀ e ∈ first :: rest, Between (extremes first rest) e := by
  induction rest using List.reverseRecOn with
  | nil =>
    intro e he
    rw [List.mem_singleton.mp he]
    exact ⟨Int64.le_refl _, Int64.le_refl _⟩
  | append_singleton rest last ih =>
    have hlow : (extremes first (rest ++ [last])).elseArm.attrs.level ≤ last.attrs.level ∧
        (extremes first (rest ++ [last])).elseArm.attrs.level ≤
          (extremes first rest).elseArm.attrs.level := by
      rw [extremes_concat]
      simp only
      split_ifs with hlast
      · exact ⟨Int64.le_refl _, Int64.le_of_lt hlast⟩
      · exact ⟨Int64.not_lt.mp hlast, Int64.le_refl _⟩
    have hhigh : last.attrs.level ≤ (extremes first (rest ++ [last])).ifArm.attrs.level ∧
        (extremes first rest).ifArm.attrs.level ≤
          (extremes first (rest ++ [last])).ifArm.attrs.level := by
      rw [extremes_concat]
      simp only
      split_ifs with hlast
      · exact ⟨Int64.le_refl _, Int64.le_of_lt hlast⟩
      · exact ⟨Int64.not_lt.mp hlast, Int64.le_refl _⟩
    intro e he
    rw [← List.cons_append, List.mem_append, List.mem_singleton] at he
    rcases he with he | rfl
    · obtain ⟨hlower, hupper⟩ := ih e he
      exact ⟨Int64.le_trans hlow.2 hlower, Int64.le_trans hupper hhigh.2⟩
    · exact ⟨hlow.1, hhigh.1⟩

theorem arms_of_few (h : g.outDegree v.id < 2) :
    arms g v = .error (ambiguous v (toString (g.outDegree v.id) ++ " out-edges, want 2")) := by
  unfold outDegree at h
  unfold arms
  split
  · next houts =>
    rw [houts, List.length_cons, List.length_cons] at h
    omega
  · rfl

/-- Two edges at different levels are enough to tell the arms apart. -/
theorem exists_arms (hlevels : (g.levels v.id).Nodup) (h : 2 ≤ g.outDegree v.id) :
    ∃ a, arms g v = .ok a := by
  unfold arms
  split
  · next first second rest houts =>
    simp only
    split_ifs with hlevel
    · -- the first two edges would be at the one level between the arms
      exfalso
      have hbetween := between_extremes first (second :: rest)
      obtain ⟨hlow, hhigh⟩ := hbetween first (by simp)
      obtain ⟨hlow', hhigh'⟩ := hbetween second (by simp)
      have hfirst := Int64.le_antisymm hlow (hlevel ▸ hhigh)
      have hsecond := Int64.le_antisymm hlow' (hlevel ▸ hhigh')
      rw [levels, houts, List.map_cons, List.map_cons, List.nodup_cons] at hlevels
      refine hlevels.1 ?_
      rw [← hfirst, hsecond]
      exact List.mem_cons_self ..
    · exact ⟨_, rfl⟩
  · next hfew =>
    exfalso
    unfold outDegree at h
    rcases houts : g.outs v.id with _ | ⟨first, _ | ⟨second, rest⟩⟩
    · simp [houts] at h
    · simp [houts] at h
    · exact hfew _ _ _ houts

theorem fault_branch {s : Structuring} (hs : s.fault = none)
    (hlevels : (s.graph.levels v.id).Nodup) :
    (s.branch t v).fault =
      if s.graph.outDegree v.id < 2 then
        some (ambiguous v (toString (s.graph.outDegree v.id) ++ " out-edges, want 2"))
      else none := by
  unfold Structuring.branch
  simp only
  split_ifs with hfew
  · rw [arms_of_few hfew]
  · obtain ⟨a, ha⟩ := exists_arms hlevels (Nat.not_lt.mp hfew)
    rw [ha]
    simp only
    split
    · exact hs
    · split_ifs
      · simp only [close_tally]
        exact hs
      · exact hs

/-! ### What is said -/

theorem space_not_mem_toString (level : Int) : ' ' ∉ (toString level).toList := by
  have hdigits : ∀ n : Nat, ' ' ∉ n.repr.toList := by
    intro n hmem
    rw [Nat.toList_repr] at hmem
    exact absurd (Nat.isDigit_of_mem_toDigits (by decide) (by decide) hmem) (by decide)
  cases level with
  | ofNat n => exact hdigits n
  | negSucc n =>
    have htext : toString (Int.negSucc n) = "-" ++ (n + 1).repr := rfl
    rw [htext, String.toList_append, List.mem_append, not_or]
    exact ⟨by decide, hdigits (n + 1)⟩

/-- A text that ends in a word from another that ends in a lone `2`: the letters before differ. -/
theorem ne_append_word {word xs ys : List Char} (h : ' ' ∉ word) :
    '2' :: ' ' :: 't' :: xs ≠ word ++ ' ' :: 'l' :: ys := by
  rcases word with _ | ⟨c, _ | ⟨d, word⟩⟩
  · simp
  · simp
  · rw [List.mem_cons, List.mem_cons, not_or, not_or] at h
    intro heq
    exact h.2.1 (List.cons.inj (List.cons.inj heq).2).1

/-- Read from their ends, the two complaints about a branch differ before their second blank, whatever
branches they are about. -/
theorem ambiguous_ne (v v' : Vertex) (n : Nat) (level : Int) :
    ambiguous v (toString n ++ " out-edges, want 2") ≠
      ambiguous v' ("both arms at flow level " ++ toString level) := by
  intro h
  have hwant : " out-edges, want 2".toList.reverse =
      '2' :: ' ' :: 't' :: " out-edges, wan".toList.reverse := by decide
  have hlevel : "both arms at flow level ".toList.reverse =
      ' ' :: 'l' :: "both arms at flow leve".toList.reverse := by decide
  have htext := congrArg (fun s : String => s.toList.reverse) (Fault.coded.inj h).2
  simp only [String.toList_append, List.reverse_append, hwant, hlevel, List.cons_append,
    List.append_assoc] at htext
  refine ne_append_word ?_ htext
  rw [List.mem_reverse]
  exact space_not_mem_toString level

/-! ### The scan -/

theorem op?_bypass (dest : Int) (s : Structuring) (e : Edge) (x : Int) :
    (bypass t dest s e).graph.op? x = s.graph.op? x := by
  unfold bypass
  simp only
  split_ifs
  · exact op?_congr live_reroute ops_reroute x
  · rfl

theorem op?_marked {s : Structuring} (hg : s.graph.WellFormed) (v : Vertex) (a : Arms)
    (hx : x ≠ v.id) : (s.marked v a).op? x = s.graph.op? x := by
  unfold marked addMarker
  rw [op?_updateOp (hg.setElse _), if_neg hx]
  rfl

theorem op?_close {s : Structuring} (hg : s.graph.WellFormed) (id : Nat) (m : Merge)
    (hx : x ≠ m.vertex) : (s.close t id m).graph.op? x = s.graph.op? x := by
  unfold close addMarker
  simp only [List.foldl_cons, List.foldl_nil, op?_bypass]
  rw [op?_updateOp hg, if_neg hx]

/-- Of the vertices that are not labels, only the branch itself gets a marker. -/
theorem op?_branch {s : Structuring} (hg : s.graph.WellFormed) (hne : x ≠ v.id)
    (hlabel : ¬ s.graph.isLabel x = true) : (s.branch t v).graph.op? x = s.graph.op? x := by
  unfold Structuring.branch
  simp only
  split
  · rfl
  · next a harms =>
    have hmarked := op?_marked hg v a hne
    split
    · exact hmarked
    · next m hm =>
      split_ifs with hmerge
      · have hwf : (s.marked v a).WellFormed := (hg.setElse _).updateOp _ _
        refine (op?_close hwf _ m ?_).trans hmarked
        rintro rfl
        refine hlabel ?_
        rw [isLabel, ← hmarked]
        exact hmerge
      · exact hmarked

namespace Bypassed

variable {ms : List (Int × Int)} {s : Structuring}

theorem levels_perm (h : Bypassed t g₀ ms s) (x : Int) :
    (s.graph.levels x).Perm (g₀.levels x) :=
  Graph.levels_perm (h.moved.outs x)

theorem outDegree_eq (h : Bypassed t g₀ ms s) (x : Int) : s.graph.outDegree x = g₀.outDegree x :=
  h.moved.length_outs x

theorem any_branch_eq (h : Bypassed t g₀ ms s) (x : Int) :
    (s.graph.op? x).any (t.classify · = .branch) = (g₀.op? x).any (t.classify · = .branch) :=
  h.same.any_op? (fun _ => rfl) x

/-- Structuring one branch fails if the branch lacked an arm from the start. -/
theorem fault_branch {op : Operation} (h : Bypassed t g₀ ms s) (hs : s.fault = none)
    (hlevels : (g₀.levels x).Nodup) (hop : s.graph.op? x = some op)
    (hclear : s.graph.op? x = (g₀.op? x).map Operation.clearMarkers)
    (hbranch : t.classify op = .branch) :
    (s.branch t ⟨x, op⟩).fault = if g₀.lacksArm t x then g₀.complaint? x else none := by
  have hlacks : g₀.lacksArm t x = decide (g₀.outDegree x < 2) := by
    rw [lacksArm, ← h.any_branch_eq, hop]
    simp [hbranch]
  obtain ⟨op₀, hop₀, rfl⟩ := Option.map_eq_some_iff.mp (hclear.symm.trans hop)
  rw [Structuring.fault_branch hs ((h.levels_perm x).nodup_iff.mpr hlevels), h.outDegree_eq, hlacks]
  simp [complaint?, hop₀]

/-- The scan of `vs` stops at the first branch that lacks an arm. Branches still to be scanned have no
markers, so that is how the fault shows them. -/
theorem fault_scan {vs : List Int} (h : Bypassed t g₀ ms s) (hs : s.fault = none)
    (hlevels : ∀ x, (g₀.levels x).Nodup) (hvs : vs.Nodup)
    (hclear : ∀ x ∈ vs, ¬ g₀.isLabel x = true →
      s.graph.op? x = (g₀.op? x).map Operation.clearMarkers) :
    (Structuring.scan t vs s).fault = (vs.find? (g₀.lacksArm t)).bind g₀.complaint? := by
  induction vs generalizing s ms with
  | nil => exact hs
  | cons x vs ih =>
    obtain ⟨hx, hvs⟩ := List.nodup_cons.mp hvs
    have hlater : ∀ y ∈ vs, ¬ g₀.isLabel y = true →
        s.graph.op? y = (g₀.op? y).map Operation.clearMarkers :=
      fun y hy => hclear y (List.mem_cons_of_mem _ hy)
    have hpass : (s.graph.op? x).any (t.classify · = .branch) = false →
        g₀.lacksArm t x = false := by
      intro hplain
      rw [lacksArm, ← h.any_branch_eq, hplain, Bool.false_and]
    rw [List.find?_cons]
    unfold Structuring.scan
    split
    · next u hu =>
      obtain ⟨op, hop, rfl⟩ := Option.map_eq_some_iff.mp hu
      by_cases hbranch : t.classify op = .branch
      · have hlabel : ¬ g₀.isLabel x = true := by
          rw [← h.same.isLabel]
          exact not_isLabel_of_classify hop (t := t) (by simp [hbranch])
        have hfault := h.fault_branch hs (hlevels x) hop
          (hclear x (List.mem_cons_self ..) hlabel) hbranch
        simp only [hbranch, if_true]
        cases hlacks : g₀.lacksArm t x with
        | true =>
          rw [if_pos hlacks] at hfault
          obtain ⟨op₀, hop₀, -⟩ := op?_of_lacksArm hlacks
          simp [hfault, complaint?, hop₀]
        | false =>
          -- markers go to this branch and to a label, so no later branch gets one
          rw [hlacks, if_neg Bool.false_ne_true] at hfault
          obtain ⟨ms', h'⟩ := h.branch (v := ⟨x, op⟩)
          simp only [hfault, Option.isSome_none, Bool.false_eq_true, if_false]
          refine ih h' hfault hvs ?_
          intro y hy hylabel
          have hne : y ≠ x := by
            rintro rfl
            exact hx hy
          rw [op?_branch h.wellFormed hne (by rwa [h.same.isLabel])]
          exact hlater y hy hylabel
      · rw [hpass (by simp [hop, hbranch])]
        simp only [hbranch, if_false]
        exact ih h hs hvs hlater
    · next hnone =>
      rw [hpass (by rw [Option.map_eq_none_iff.mp hnone, Option.any_none])]
      exact ih h hs hvs hlater

end Bypassed

end Structuring

namespace Graph

/-- Vertices ascend, so what is found first is the first of all. -/
theorem find?_lacksArm_iff (hg : g.WellFormed) :
    g.live.find? (g.lacksArm t) = some x ↔
      g.lacksArm t x = true ∧ ∀ w < x, g.lacksArm t w = false := by
  constructor
  · intro hfind
    obtain ⟨hx, before, after, hlive, hbefore⟩ := List.find?_eq_some_iff_append.mp hfind
    have hsorted := hg.live_sorted
    rw [hlive, List.pairwise_append, List.pairwise_cons] at hsorted
    refine ⟨hx, ?_⟩
    intro w hw
    by_contra hlacks
    rw [Bool.not_eq_false] at hlacks
    have hlater := mem_live_of_lacksArm hlacks
    rw [hlive, List.mem_append, List.mem_cons] at hlater
    rcases hlater with hlater | rfl | hlater
    · simpa [hlacks] using hbefore w hlater
    · exact Int.lt_irrefl w hw
    · exact Int.lt_irrefl w (Int.lt_trans hw (hsorted.2.1.1 w hlater))
  · rintro ⟨hx, hfirst⟩
    refine List.find?_eq_some_iff_append.mpr ⟨hx, ?_⟩
    obtain ⟨before, after, hlive⟩ := List.append_of_mem (mem_live_of_lacksArm hx)
    have hsorted := hg.live_sorted
    rw [hlive, List.pairwise_append] at hsorted
    refine ⟨before, after, hlive, ?_⟩
    intro w hw
    rw [hfirst w (hsorted.2.2 w hw x (List.mem_cons_self ..))]
    rfl

theorem fault_structureBranches (hg : g.WellFormed) (hlevels : ∀ x, (g.levels x).Nodup) :
    (g.structureBranches t).fault = (g.live.find? (g.lacksArm t)).bind g.complaint? := by
  have hscan := (Structuring.Bypassed.start hg).fault_scan (t := t) rfl hlevels hg.live_nodup
    fun x _ _ => op?_clearAllMarkers hg x
  unfold structureBranches
  simp only
  split_ifs <;> exact hscan

/-! ### Built graphs -/

variable {r : Routine} {stats : BuildStats} {land : Int → Int}

theorem nodup_levels_of_build (h : r.build t = .ok (g, stats)) (hsize : r.ops.length < 2 ^ 63)
    (x : Int) : (g.levels x).Nodup := by
  rcases Routine.build_eq_ok h with ⟨hops, rfl, rfl⟩ | ⟨labels, w, hb⟩
  · exact List.nodup_nil
  · exact hb.nodup_levels hsize x

namespace FirstPass

theorem levels_perm (h : FirstPass t g g' land) (hx : x ∈ g'.live) :
    (g'.levels x).Perm (g.levels x) :=
  Graph.levels_perm (h.contraction.outs x hx)

theorem nodup_levels (h : FirstPass t g g' land) (hlevels : (g.levels x).Nodup) :
    (g'.levels x).Nodup := by
  by_cases hx : x ∈ g'.live
  · exact (h.levels_perm hx).nodup_iff.mpr hlevels
  · rw [levels, h.wellFormed.outs_eq_nil hx]
    exact List.nodup_nil

theorem outDegree_eq (h : FirstPass t g g' land) (hx : x ∈ g'.live) :
    g'.outDegree x = g.outDegree x := by
  rw [← length_levels, ← length_levels, (h.levels_perm hx).length_eq]

/-- The first pass removes no branch. -/
theorem mem_live_of_branch (h : FirstPass t g g' land) {op : Operation} (hop : g.op? x = some op)
    (hbranch : t.classify op = .branch) : x ∈ g'.live := by
  by_contra hx
  rcases h.removes x ⟨mem_live_of_op? hop, hx⟩ with ⟨op', hop', hjump⟩ | ⟨hlabel, -⟩
  · obtain rfl := Option.some.inj (hop.symm.trans hop')
    simp [hbranch] at hjump
  · exact not_isLabel_of_classify hop (t := t) (by simp [hbranch]) hlabel

theorem lacksArm_eq (h : FirstPass t g g' land) (x : Int) : g'.lacksArm t x = g.lacksArm t x := by
  by_cases hx : x ∈ g'.live
  · rw [lacksArm, lacksArm, h.within.op? hx, h.outDegree_eq hx]
  · have hnew : g'.lacksArm t x = false := by
      rw [lacksArm, op?_of_not_mem hx]
      rfl
    refine hnew.trans (Bool.eq_false_iff.mpr ?_).symm
    intro hold
    obtain ⟨op, hop, hbranch⟩ := op?_of_lacksArm hold
    exact hx (h.mem_live_of_branch hop hbranch)

/-- What the second pass finds fault with is there before the first. -/
theorem fault_structureBranches (h : FirstPass t g g' land) (hg : g.WellFormed)
    (hlevels : ∀ x, (g.levels x).Nodup) :
    (g'.structureBranches t).fault = (g.live.find? (g.lacksArm t)).bind g.complaint? := by
  have hfind : g'.live.find? (g'.lacksArm t) = g.live.find? (g.lacksArm t) := by
    refine Option.ext fun x => ?_
    rw [find?_lacksArm_iff h.wellFormed, find?_lacksArm_iff hg]
    simp only [h.lacksArm_eq]
  rw [Graph.fault_structureBranches h.wellFormed fun x => h.nodup_levels (hlevels x), hfind]
  refine Option.bind_congr ?_
  intro x hx
  obtain ⟨op, hop, hbranch⟩ := op?_of_lacksArm (List.find?_some hx)
  have hlive := h.mem_live_of_branch hop hbranch
  rw [complaint?, complaint?, h.within.op? hlive, h.outDegree_eq hlive]

end FirstPass

/-- Structuring a built graph fails if and only if some branch of it has fewer than two edges, and the
fault is about the first such branch; that both arms are at one level is never said. Levels are words,
and so is the length of a routine: in a longer one a level could wrap around. -/
theorem minimize_fault_iff {p : Passes} (h : r.build t = .ok (g, stats))
    (hsize : r.ops.length < 2 ^ 63) (hp : p.skipBranches = false) :
    ((g.minimize t p).fault.isSome = true ↔ ∃ v, g.lacksArm t v = true) ∧
    (∀ f, (g.minimize t p).fault = some f → ∃ v op, g.op? v = some op ∧ g.lacksArm t v = true ∧
      (∀ w < v, g.lacksArm t w = false) ∧
      f = Structuring.ambiguous ⟨v, op.clearMarkers⟩
        (toString (g.outDegree v) ++ " out-edges, want 2")) ∧
    ∀ v (level : Int), (g.minimize t p).fault ≠
      some (Structuring.ambiguous v ("both arms at flow level " ++ toString level)) := by
  obtain ⟨land, hfirst⟩ := exists_firstPass h p
  have hg := (wellFormed_of_build h).1
  have hfault : (g.minimize t p).fault =
      (g.live.find? (g.lacksArm t)).bind g.complaint? := by
    rw [fault_minimize, hp, if_neg Bool.false_ne_true]
    exact hfirst.fault_structureBranches hg (nodup_levels_of_build h hsize)
  rw [hfault]
  cases hfind : g.live.find? (g.lacksArm t) with
  | none =>
    have hall := List.find?_eq_none.mp hfind
    refine ⟨⟨fun hsome => absurd hsome (by simp), ?_⟩, by simp, by simp⟩
    rintro ⟨v, hlacks⟩
    exact absurd hlacks (hall v (mem_live_of_lacksArm hlacks))
  | some v =>
    obtain ⟨hlacks, hbefore⟩ := (find?_lacksArm_iff hg).mp hfind
    obtain ⟨op, hop, -⟩ := op?_of_lacksArm hlacks
    have hsaid : g.complaint? v = some (Structuring.ambiguous ⟨v, op.clearMarkers⟩
        (toString (g.outDegree v) ++ " out-edges, want 2")) := by
      rw [complaint?, hop]
      rfl
    rw [Option.bind_some, hsaid]
    refine ⟨⟨fun _ => ⟨v, hlacks⟩, fun _ => rfl⟩, ?_, ?_⟩
    · intro f hf
      exact ⟨v, op, hop, hlacks, hbefore, (Option.some.inj hf).symm⟩
    · intro v' level heq
      exact Structuring.ambiguous_ne _ _ _ _ (Option.some.inj heq)

/-- A branch with two arms, and behind it one that names a label of another routine. -/
def strayBranch : Routine :=
  { id := 1
    ops :=
      [.labelJump { code := { name := "BranchValue" } } ⟨1, 1⟩,
        .plain { code := { name := "Message" } }, .label 1,
        .labelJump { code := { name := "BranchValue" } } ⟨2, 5⟩,
        .plain { code := { name := "Return" } }] }

theorem strayBranch_fault_iff :
    ∃ g stats, strayBranch.build .default = .ok (g, stats) ∧ strayBranch.ops.length < 2 ^ 63 ∧
      (g.minimize .default {}).fault =
        some (.coded .ambiguousBranch
          "branch BranchValue -> @label_5 at 3 has 1 out-edges, want 2") ∧
      ((g.minimize .default {}).fault.isSome = true ↔ ∃ v, g.lacksArm .default v = true) ∧
      (∀ f, (g.minimize .default {}).fault = some f →
        ∃ v op, g.op? v = some op ∧ g.lacksArm .default v = true ∧
          (∀ w < v, g.lacksArm .default w = false) ∧
          f = Structuring.ambiguous ⟨v, op.clearMarkers⟩
            (toString (g.outDegree v) ++ " out-edges, want 2")) ∧
      ∀ v (level : Int), (g.minimize .default {}).fault ≠
        some (Structuring.ambiguous v ("both arms at flow level " ++ toString level)) :=
  ⟨_, _, rfl, by decide, rfl,
    minimize_fault_iff (r := strayBranch) (p := {}) rfl (by decide) rfl⟩

end Graph

end FlowRecovery

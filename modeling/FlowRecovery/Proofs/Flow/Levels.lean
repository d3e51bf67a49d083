import FlowRecovery.Proofs.Flow.Labels
import Mathlib.Algebra.Group.Nat.Defs

/-! The levels of a built graph tell the edges of a vertex apart. The walk raises the level by one at
every position that it enters and that names a label, and nowhere else, so in a routine whose length is a
word no level wraps around. Hence the label that an operation names is entered at a level other than
zero, the level of the edges that join trailing code; and code that nothing leads to has no edges of its
own yet when its label is drawn at level one. -/

namespace FlowRecovery

variable {r : Routine} {labels : LabelIndex} {t : Table} {v : Int}

/-- The levels of the edges that leave `v`. -/
def Graph.levels (g : Graph) (v : Int) : List Int64 := (g.outs v).map (·.attrs.level)

/-! ### Levels of the walk -/

/-- A level between zero and `n`. -/
def Low (n : Nat) (level : Int64) : Prop := 0 ≤ level.toInt ∧ level.toInt ≤ n

theorem Low.mono {m n : Nat} {level : Int64} (h : Low m level) (hmn : m ≤ n) : Low n level :=
  ⟨h.1, by have := h.2; omega⟩

/-- A level that is low enough does not wrap around when it is raised. -/
theorem Low.toInt_succ {n : Nat} {level : Int64} (h : Low n level) (hn : n + 1 < 2 ^ 63) :
    (level + 1).toInt = level.toInt + 1 := by
  obtain ⟨hlow, hhigh⟩ := h
  have hone : (1 : Int64).toInt = 1 := rfl
  rw [Int64.toInt_add, hone]
  apply Int.bmod_eq_of_le <;> omega

theorem Low.succ {n : Nat} {level : Int64} (h : Low n level) (hn : n + 1 < 2 ^ 63) :
    Low (n + 1) (level + 1) := by
  have hadd := h.toInt_succ hn
  obtain ⟨hlow, hhigh⟩ := h
  unfold Low
  omega

theorem Low.succ_ne_zero {n : Nat} {level : Int64} (h : Low n level) : level + 1 ≠ 0 := by
  intro hzero
  have hlevel : level = 0 - 1 := by rw [← hzero, Int64.add_sub_cancel]
  have hlow := h.1
  rw [hlevel] at hlow
  exact absurd hlow (by decide)

theorem Routine.level_of_mem_successors {p : Int} {level : Int64} {ss : List Successor}
    (h : r.successors? labels t p level = some (.ok ss)) {s : Successor} (hs : s ∈ ss) :
    s.level = level ∨ (r.named? labels p).isSome = true ∧ s.level = level + 1 := by
  rcases mem_successors h hs with rfl | ⟨target, hnamed, rfl⟩
  · exact Or.inl rfl
  · exact Or.inr ⟨Option.isSome_of_eq_some hnamed, rfl⟩

namespace Walk

/-- How many of the positions name a label. -/
def raised (r : Routine) (labels : LabelIndex) (visited : List Int) : Nat :=
  visited.countP fun p => (r.named? labels p).isSome

theorem raised_cons (p : Int) (visited : List Int) :
    raised r labels (p :: visited) =
      raised r labels visited + if (r.named? labels p).isSome = true then 1 else 0 :=
  List.countP_cons

/-- No level is higher than the number of positions that have been entered and that name a label. -/
structure LevelInv (r : Routine) (labels : LabelIndex) (w : Walk) : Prop where
  edges : ∀ e ∈ w.graph.edges, Low (raised r labels w.visited) e.attrs.level
  frames : ∀ f ∈ w.stack, ∀ s ∈ f.pending, Low (raised r labels w.visited) s.level

namespace LevelInv

variable {w : Walk} {p : Int} {s : Successor} {pending : List Successor} {below : List Frame}

theorem top (h : LevelInv r labels w) (hstack : w.stack = ⟨p, s :: pending⟩ :: below) :
    Low (raised r labels w.visited) s.level :=
  h.frames ⟨p, s :: pending⟩ (hstack ▸ List.mem_cons_self ..) s (List.mem_cons_self ..)

theorem rest (h : LevelInv r labels w) (hstack : w.stack = ⟨p, s :: pending⟩ :: below) :
    ∀ f ∈ (⟨p, pending⟩ :: below : List Frame), ∀ s ∈ f.pending,
      Low (raised r labels w.visited) s.level := by
  intro f hf x hx
  rcases List.mem_cons.mp hf with rfl | hf
  · exact h.frames ⟨p, s :: pending⟩ (hstack ▸ List.mem_cons_self ..) x (List.mem_cons_of_mem _ hx)
  · exact h.frames f (hstack ▸ List.mem_cons_of_mem _ hf) x hx

theorem edges_drawTo (h : LevelInv r labels w) (hstack : w.stack = ⟨p, s :: pending⟩ :: below)
    (hp : p ∈ w.graph.live) (hs : s.pos ∈ w.graph.live) :
    ∀ e ∈ (w.drawTo p s).edges, Low (raised r labels w.visited) e.attrs.level := by
  intro e he
  rw [drawTo, Graph.edges_link hp hs] at he
  rcases List.mem_append.mp he with he | he
  · exact h.edges e he
  · rw [List.mem_singleton.mp he]
    exact h.top hstack

theorem next {w' : Walk} (hsize : r.ops.length < 2 ^ 63) (hinv : Inv r labels t w)
    (h : LevelInv r labels w) (hnext : Next r labels t w w') : LevelInv r labels w' := by
  have hafter : raised r labels w'.visited ≤ r.ops.length :=
    Nat.le_trans List.countP_le_length (hinv.next hnext).length_visited_le
  cases hnext with
  | rest => exact h
  | leave hstack =>
    exact ⟨h.edges, fun f hf => h.frames f (hstack ▸ List.mem_cons_of_mem _ hf)⟩
  | draw hstack hp hs hseen => exact ⟨h.edges_drawTo hstack hp hs, h.rest hstack⟩
  | @enter p s pending below frame hstack hp hs hnew hframe =>
    obtain ⟨-, hsucc⟩ := enter_eq_ok hframe (hinv.spans.mem_live.mp hs)
    have hgrow : raised r labels w.visited ≤ raised r labels (s.pos :: w.visited) := by
      rw [raised_cons]
      exact Nat.le_add_right _ _
    refine ⟨fun e he => (h.edges_drawTo hstack hp hs e he).mono hgrow, ?_⟩
    intro f hf x hx
    rcases List.mem_cons.mp hf with rfl | hf
    · rcases Routine.level_of_mem_successors hsucc hx with hlevel | ⟨hnamed, hlevel⟩
      · rw [hlevel]
        exact (h.top hstack).mono hgrow
      · have hcount := @raised_cons r labels s.pos w.visited
        rw [if_pos hnamed] at hcount
        simp only [hcount] at hafter
        rw [hlevel, hcount]
        exact (h.top hstack).succ (by omega)
    · exact (h.rest hstack f hf x hx).mono hgrow

theorem of_ofRoutine (hsize : r.ops.length < 2 ^ 63) (hpos : (r.opAt? 0).isSome)
    (h : ofRoutine r labels t = .ok w) : LevelInv r labels w := by
  refine (ofRoutine_induction (P := fun w => Inv r labels t w ∧ LevelInv r labels w) ?_
    (fun _ _ hw hnext => ⟨hw.1.next hnext, next hsize hw.1 hw.2 hnext⟩) h).2
  intro frame hframe
  refine ⟨Inv.start_of_enter hpos hframe, fun e he => absurd he List.not_mem_nil, ?_⟩
  intro f hf x hx
  rw [List.mem_singleton.mp hf] at hx
  have hzero : Low 0 0 := ⟨by decide, by decide⟩
  rcases Routine.level_of_mem_successors (enter_eq_ok hframe hpos).2 hx with hlevel | ⟨hnamed, hlevel⟩
  · rw [hlevel]
    exact hzero.mono (Nat.zero_le _)
  · have hone : raised r labels [0] = 1 := by simp [raised, hnamed]
    rw [hlevel, hone]
    exact hzero.succ (by decide)

/-- A position is entered at a level that can be raised to one other than zero. -/
theorem entryLevel_succ_ne_zero (h : LevelInv r labels w) {level : Int64} (hp : w.graph.EntryLevel p level) :
    level + 1 ≠ 0 := by
  rcases hp with ⟨-, rfl⟩ | ⟨-, e, he, -, rfl⟩
  · decide
  · exact (h.edges e (Graph.mem_ins.mp he).1).succ_ne_zero

end LevelInv

end Walk

/-! ### Telling edges apart -/

theorem Routine.nodup_level_successors {p : Int} {level : Int64} {ss : List Successor}
    (h : r.successors? labels t p level = some (.ok ss)) : (ss.map Successor.level).Nodup := by
  obtain ⟨op, -, hss⟩ := successors?_eq_ok h
  obtain ⟨before, after, honward, ⟨-, rfl⟩ | ⟨label, target, -, -, rfl⟩⟩ := successorsOf_eq_ok hss
  · rcases honward with hnil | hone
    · simp [hnil]
    · simp [hone]
  · rw [(List.perm_middle.map Successor.level).nodup_iff, List.map_cons, List.nodup_cons]
    rcases honward with hnil | hone
    · simp [hnil]
    · simp [hone]

/-- The walk draws the edges of a position at different levels. -/
theorem Walk.Finished.nodup_levels {w : Walk} (h : Walk.Finished r labels t w) (v : Int) :
    (w.graph.levels v).Nodup := by
  have hlevels : w.graph.levels v = (w.graph.drawn v).map Successor.level := by
    simp [Graph.levels, Graph.drawn]
  by_cases hv : v ∈ w.visited
  · obtain ⟨level, -, hss⟩ := h.successors hv
    rw [hlevels]
    exact Routine.nodup_level_successors hss
  · rw [Graph.levels, h.outs_eq_nil fun hreached => hv (h.mem_visited.mpr hreached)]
    exact List.nodup_nil

/-- The edges of `v` have different levels, and the levels of the edges that may still be drawn to join
trailing code are free. -/
structure Graph.Ranked (g : Graph) (v : Int) : Prop where
  nodup : (g.levels v).Nodup
  next : g.inDegree (v + 1) = 0 → 0 ∉ g.levels v
  side : 2 ≤ v → g.inDegree v = 0 → 1 ∉ g.levels v

theorem Walk.Finished.ranked {w : Walk} (h : Walk.Finished r labels t w)
    (hlow : Walk.LevelInv r labels w) (v : Int) : w.graph.Ranked v := by
  by_cases hv : v ∈ w.visited
  · obtain ⟨level, hlevel, hss⟩ := h.successors hv
    have hraised := hlow.entryLevel_succ_ne_zero hlevel
    have hlevels : w.graph.levels v = (w.graph.drawn v).map Successor.level := by
      simp [Graph.levels, Graph.drawn]
    refine ⟨h.nodup_levels v, ?_, ?_⟩
    · intro hnone hzero
      rw [hlevels] at hzero
      obtain ⟨s, hs, hzero⟩ := List.mem_map.mp hzero
      rcases Routine.mem_successors hss hs with rfl | ⟨target, -, rfl⟩
      · obtain ⟨e, he, heq⟩ := List.mem_map.mp hs
        have hins : e ∈ w.graph.ins (v + 1) :=
          Graph.mem_ins.mpr ⟨(Graph.mem_outs.mp he).1, congrArg Successor.pos heq⟩
        rw [List.length_eq_zero_iff.mp hnone] at hins
        exact List.not_mem_nil hins
      · exact hraised hzero
    · intro htwo hnone
      rcases hlevel with ⟨rfl, -⟩ | ⟨-, e, he, -⟩
      · exact absurd htwo (by decide)
      · rw [List.length_eq_zero_iff.mp hnone] at he
        exact absurd he List.not_mem_nil
  · have hnone : w.graph.levels v = [] := by
      rw [Graph.levels, h.outs_eq_nil fun hreached => hv (h.mem_visited.mpr hreached), List.map_nil]
    exact ⟨by simp [hnone], by simp [hnone], by simp [hnone]⟩

namespace Graph

variable {g : Graph} {source target : Int} {a : Attrs}

theorem levels_link (hs : source ∈ g.live) (ht : target ∈ g.live) (v : Int) :
    (g.link source target a).levels v = g.levels v ++ if source = v then [a.level] else [] := by
  unfold levels
  rw [outs_link hs ht, List.map_append]
  by_cases hv : source = v <;> simp [hv]

theorem outDegree_link (hs : source ∈ g.live) (ht : target ∈ g.live) (v : Int) :
    (g.link source target a).outDegree v = g.outDegree v + if source = v then 1 else 0 := by
  unfold outDegree
  rw [outs_link hs ht, List.length_append]
  by_cases hv : source = v <;> simp [hv]

theorem inDegree_link (hs : source ∈ g.live) (ht : target ∈ g.live) (v : Int) :
    (g.link source target a).inDegree v = g.inDegree v + if target = v then 1 else 0 := by
  unfold inDegree
  rw [ins_link hs ht, List.length_append]
  by_cases hv : target = v <;> simp [hv]

namespace Ranked

theorem link_of_ne (h : g.Ranked v) (hs : source ∈ g.live) (ht : target ∈ g.live)
    (hne : source ≠ v) : (g.link source target a).Ranked v := by
  have hlevels : (g.link source target a).levels v = g.levels v := by
    rw [levels_link hs ht, if_neg hne, List.append_nil]
  refine ⟨hlevels ▸ h.nodup, ?_, ?_⟩
  · rw [hlevels, inDegree_link hs ht]
    exact fun hnone => h.next (by omega)
  · rw [hlevels, inDegree_link hs ht]
    exact fun htwo hnone => h.side htwo (by omega)

/-- The edge to the next position is drawn at level zero if nothing leads there. -/
theorem link_next (h : g.Ranked v) (hs : target - 1 ∈ g.live) (ht : target ∈ g.live)
    (hins : g.inDegree target = 0) : (g.link (target - 1) target {}).Ranked v := by
  by_cases hv : target - 1 = v
  · have hlevels : (g.link (target - 1) target {}).levels v = g.levels v ++ [0] := by
      rw [levels_link hs ht, if_pos hv]
    have hzero : 0 ∉ g.levels v := h.next (by rw [← hv, Int.sub_add_cancel, hins])
    refine ⟨?_, ?_, ?_⟩
    · rw [hlevels, ← List.concat_eq_append]
      exact h.nodup.concat hzero
    · rw [inDegree_link hs ht, ← hv, Int.sub_add_cancel, if_pos rfl]
      exact fun hnone => absurd hnone (Nat.succ_ne_zero _)
    · rw [hlevels, inDegree_link hs ht]
      intro htwo hnone
      have hone := h.side htwo (by omega)
      simpa using hone
  · exact h.link_of_ne hs ht hv

/-- The label beside a position that nothing leads to has been joined. -/
theorem link_side {loop : Bool} (h : g.Ranked v) (hs : source ∈ g.live) (ht : target ∈ g.live)
    (hside : source = v → 0 < g.inDegree v ∧ 1 ∉ g.levels v) :
    (g.link source target { level := 1, loop }).Ranked v := by
  by_cases hv : source = v
  · obtain ⟨hjoined, hone⟩ := hside hv
    have hlevels : (g.link source target { level := 1, loop }).levels v = g.levels v ++ [1] := by
      rw [levels_link hs ht, if_pos hv]
    refine ⟨?_, ?_, ?_⟩
    · rw [hlevels, ← List.concat_eq_append]
      exact h.nodup.concat hone
    · rw [hlevels, inDegree_link hs ht]
      intro hnone
      have hzero := h.next (by omega)
      simpa using hzero
    · rw [inDegree_link hs ht]
      exact fun _ hnone => absurd hnone (by omega)
  · exact h.link_of_ne hs ht hv

end Ranked

end Graph

theorem Tail.ranked_round {s s' : Tail} {pos : Int} (hpos2 : 2 ≤ pos) (hs : s.graph.Ranked v)
    (hins : s.graph.inDegree pos = 0) (hj : Joined r labels t pos s s') : s'.graph.Ranked v := by
  cases hj with
  | behind hbefore hpos hside => exact hs.link_next hbefore hpos hins
  | @beside label target loop hbefore hpos hside hfind htarget =>
    have hnext := hs.link_next hbefore hpos hins
    refine hnext.link_side (by simpa using hpos) (by simpa using htarget) ?_
    rintro rfl
    refine ⟨?_, ?_⟩
    · rw [Graph.inDegree_link hbefore hpos, if_pos rfl]
      exact Nat.succ_pos _
    · rw [Graph.levels_link hbefore hpos, if_neg (by omega), List.append_nil]
      exact hs.side hpos2 hins

/-- The edges that leave a vertex of a built graph have different levels. -/
theorem Routine.BuiltFrom.nodup_levels {w : Walk} {g : Graph} {stats : BuildStats}
    (h : BuiltFrom r t labels w g stats) (hsize : r.ops.length < 2 ^ 63) (v : Int) :
    (g.levels v).Nodup := by
  have hlow := Walk.LevelInv.of_ofRoutine hsize h.start h.walk_eq
  have hranked := Tail.back_induction (P := fun s => s.graph.Ranked v)
    (fun s s' pos hs htwo hins hj => Tail.ranked_round (by omega) hs hins hj) _
    (h.finished.ranked hlow v) h.noFault
  rw [h.graph_eq]
  exact hranked.nodup

end FlowRecovery

import FlowRecovery.Proofs.Flow.Build

/-! A routine and the same routine with more operations behind it. As long as control never comes to an
added position, both are walked in the same steps: the labels that are named stand where they stood, and
an operation that would go on behind the old end would make an added position reached. So the walks
enter the same positions and draw the same edges, flags and numbers included. -/

namespace FlowRecovery

open Relation

namespace Routine

variable {r : Routine} {extra : List Operation} {labels labels' : LabelIndex} {t : Table} {p : Int}

/-- The routine with further operations behind it. -/
def followedBy (r : Routine) (extra : List Operation) : Routine := { r with ops := r.ops ++ extra }

theorem opAt?_followedBy {op : Operation} (h : r.opAt? p = some op) :
    (r.followedBy extra).opAt? p = some op := by
  obtain ⟨hp, hop⟩ := opAt?_eq_some h
  obtain ⟨hlt, -⟩ := List.getElem?_eq_some_iff.mp hop
  rw [opAt?, if_pos hp, followedBy, List.getElem?_append_left hlt, hop]

theorem isSome_opAt?_iff : (r.opAt? p).isSome = true ↔ 0 ≤ p ∧ p < r.ops.length := by
  unfold opAt?
  split_ifs with hp
  · rw [isSome_getElem?]
    omega
  · simp [hp]

/-! ### Labels -/

/-- A label that has a position keeps it. -/
theorem find?_indexLabels_of_find? {routine pos label q : Int} {idx idx' : LabelIndex}
    {ops : List Operation} (h : indexLabels routine pos idx ops = .ok idx')
    (hq : idx.find? label = some q) : idx'.find? label = some q := by
  induction ops generalizing pos idx with
  | nil =>
    obtain rfl := Except.ok.inj h
    exact hq
  | cons op rest ih =>
    unfold indexLabels at h
    split at h
    · exact ih h hq
    · next own hown =>
      split at h
      · simp at h
      · next hnone =>
        refine ih h ?_
        have hne : label ≠ own := by
          rintro rfl
          simp [hnone] at hq
        rw [LabelIndex.find?_insert, if_neg hne, hq]

theorem find?_indexLabels_append {routine pos label q : Int} {idx : LabelIndex}
    {ops : List Operation} (h : indexLabels routine pos idx ops = .ok labels)
    (h' : indexLabels routine pos idx (ops ++ extra) = .ok labels')
    (hq : labels.find? label = some q) : labels'.find? label = some q := by
  induction ops generalizing pos idx with
  | nil =>
    obtain rfl := Except.ok.inj h
    exact find?_indexLabels_of_find? h' hq
  | cons op rest ih =>
    rw [List.cons_append] at h'
    unfold indexLabels at h h'
    split at h
    · next hown =>
      simp only [hown] at h'
      exact ih h h'
    · next own hown =>
      simp only [hown] at h'
      split at h
      · simp at h
      · next hnone =>
        simp only [hnone] at h'
        exact ih h h'

theorem find?_followedBy (h : r.labelIndex = .ok labels)
    (h' : (r.followedBy extra).labelIndex = .ok labels') {label q : Int}
    (hq : labels.find? label = some q) : labels'.find? label = some q :=
  find?_indexLabels_append h h' hq

/-! ### Successors -/

/-- The next position, if control falls through to it. -/
def before (r : Routine) (t : Table) (op : Operation) (p : Int) (level : Int64) : List Successor :=
  if fallsThrough t op (r.opAt? (p + 1)) then [⟨level, p + 1⟩] else []

/-- The next position, if control holds on to it. -/
def after (r : Routine) (t : Table) (op : Operation) (p : Int) (level : Int64) : List Successor :=
  if holdsOn t op (r.opAt? (p + 1)) then [⟨level, p + 1⟩] else []

theorem successorsOf_eq_ok_iff {op : Operation} {level : Int64} {ss : List Successor} :
    r.successorsOf labels t op p level = .ok ss ↔
      op.localTarget? r.id = none ∧ r.before t op p level ++ r.after t op p level = ss ∨
      ∃ label target, op.localTarget? r.id = some label ∧ labels.find? label = some target ∧
        r.before t op p level ++ ⟨level + 1, target⟩ :: r.after t op p level = ss := by
  cases hlocal : op.localTarget? r.id with
  | none => simp [successorsOf, hlocal, before, after]
  | some label =>
    cases hfind : labels.find? label with
    | none => simp [successorsOf, hlocal, labelPos, hfind, bind, Except.bind]
    | some target => simp [successorsOf, hlocal, labelPos, hfind, bind, Except.bind, before, after]

theorem pos_of_mem_onward {op : Operation} {level : Int64} {s : Successor}
    (hs : s ∈ r.before t op p level ++ r.after t op p level) : s.pos = p + 1 := by
  unfold before after at hs
  rcases List.mem_append.mp hs with hs | hs <;> split_ifs at hs
  · rw [List.mem_singleton.mp hs]
  · simp at hs
  · rw [List.mem_singleton.mp hs]
  · simp at hs

/-- What stands before and behind the named label are successors. -/
theorem subset_successorsOf {op : Operation} {level : Int64} {ss : List Successor}
    (h : r.successorsOf labels t op p level = .ok ss) :
    r.before t op p level ++ r.after t op p level ⊆ ss := by
  rcases successorsOf_eq_ok_iff.mp h with ⟨-, rfl⟩ | ⟨label, target, -, -, rfl⟩
  · exact fun _ hs => hs
  · exact List.append_subset.mpr ⟨List.subset_append_left .., fun s hs =>
      List.mem_append_right _ (List.mem_cons_of_mem _ hs)⟩

/-- Where control does not go on behind the old end, an operation has the same successors. -/
theorem successors?_followedBy (hlabels : r.labelIndex = .ok labels)
    (hlabels' : (r.followedBy extra).labelIndex = .ok labels') {level : Int64} {ss : List Successor}
    (h : r.successors? labels t p level = some (.ok ss))
    (hstays : ∀ q, (r.followedBy extra).Leads labels' t p q → q < r.ops.length) :
    (r.followedBy extra).successors? labels' t p level = some (.ok ss) := by
  obtain ⟨op, hop, hss⟩ := successors?_eq_ok h
  have hop' : (r.followedBy extra).opAt? p = some op := opAt?_followedBy hop
  have hdefined : ∃ ss', (r.followedBy extra).successorsOf labels' t op p level = .ok ss' := by
    rcases successorsOf_eq_ok_iff.mp hss with ⟨hlocal, -⟩ | ⟨label, target, hlocal, hfind, -⟩
    · exact ⟨_, successorsOf_eq_ok_iff.mpr (Or.inl ⟨hlocal, rfl⟩)⟩
    · exact ⟨_, successorsOf_eq_ok_iff.mpr
        (Or.inr ⟨label, target, hlocal, find?_followedBy hlabels hlabels' hfind, rfl⟩)⟩
  obtain ⟨ss', hss'⟩ := hdefined
  have hsame : (r.followedBy extra).before t op p level = r.before t op p level ∧
      (r.followedBy extra).after t op p level = r.after t op p level := by
    cases hbehind : r.opAt? (p + 1) with
    | some next => simp only [before, after, hbehind, opAt?_followedBy hbehind, and_self]
    | none =>
      -- in `r` nothing stands behind the last operation, and in the other control does not go there
      have hnone : (r.followedBy extra).before t op p level ++
          (r.followedBy extra).after t op p level = [] := by
        refine List.eq_nil_iff_forall_not_mem.mpr ?_
        intro s hs
        have hlt := hstays (p + 1) ⟨level, ss', by rw [successors?, hop', Option.map_some, hss'], s,
          subset_successorsOf hss' hs, pos_of_mem_onward hs⟩
        have hp := (isSome_opAt?_iff.mp (Option.isSome_of_eq_some hop)).1
        have hsome : (r.opAt? (p + 1)).isSome = true := isSome_opAt?_iff.mpr ⟨by omega, hlt⟩
        simp [hbehind] at hsome
      rw [List.append_eq_nil_iff] at hnone
      rw [hnone.1, hnone.2]
      simp [before, after, hbehind, fallsThrough, holdsOn]
  rw [successors?, hop', Option.map_some]
  refine congrArg some (successorsOf_eq_ok_iff.mpr ?_)
  rw [hsame.1, hsame.2]
  rcases successorsOf_eq_ok_iff.mp hss with ⟨hlocal, hlist⟩ | ⟨label, target, hlocal, hfind, hlist⟩
  · exact Or.inl ⟨hlocal, hlist⟩
  · exact Or.inr ⟨label, target, hlocal, find?_followedBy hlabels hlabels' hfind, hlist⟩

/-- Control that starts at the first operation never comes to an added one. -/
def NeverAdded (r : Routine) (extra : List Operation) (labels' : LabelIndex) (t : Table) : Prop :=
  ∀ p, (r.followedBy extra).Reached labels' t p → p < r.ops.length

end Routine

/-! ### Walks -/

/-- Two walks that have entered the same positions, drawn the same edges and have the same frames to
work off. -/
structure Walk.Twin (w w' : Walk) : Prop where
  edges : w'.graph.edges = w.graph.edges
  nextEdge : w'.graph.nextEdge = w.graph.nextEdge
  visited : w'.visited = w.visited
  stack : w'.stack = w.stack

namespace Walk

variable {r : Routine} {extra : List Operation} {labels labels' : LabelIndex} {t : Table}
  {w w' w₁ : Walk}

theorem Twin.reachable_eq (h : Twin w w') (hg : w.graph.WellFormed) (hg' : w'.graph.WellFormed)
    (u v : Int) : w'.graph.reachable u v = w.graph.reachable u v := by
  have hstep : w'.graph.Step = w.graph.Step := by
    funext a b
    rw [Graph.Step, Graph.Step, h.edges]
  rw [Bool.eq_iff_iff, Graph.reachable_iff hg'.target_live, Graph.reachable_iff hg.target_live, hstep]

theorem Twin.drawTo (h : Twin w w') (hg : w.graph.WellFormed) (hg' : w'.graph.WellFormed) {p : Int}
    {s : Successor} (hp : p ∈ w.graph.live) (hs : s.pos ∈ w.graph.live) (hp' : p ∈ w'.graph.live)
    (hs' : s.pos ∈ w'.graph.live) :
    (w'.drawTo p s).edges = (w.drawTo p s).edges ∧
      (w'.drawTo p s).nextEdge = (w.drawTo p s).nextEdge := by
  unfold Walk.drawTo
  rw [Graph.edges_link hp hs, Graph.edges_link hp' hs', Graph.nextEdge_link hp hs,
    Graph.nextEdge_link hp' hs', h.edges, h.nextEdge, h.reachable_eq hg hg']
  exact ⟨rfl, rfl⟩

/-- What a step does with a successor that waits. -/
theorem step_eq {p : Int} {s : Successor} {pending : List Successor} {below : List Frame}
    (hstack : w.stack = ⟨p, s :: pending⟩ :: below) (hp : p ∈ w.graph.live)
    (hs : s.pos ∈ w.graph.live) :
    w.step r labels t =
      if w.visited.contains s.pos then
        .ok { w with graph := w.drawTo p s, stack := ⟨p, pending⟩ :: below }
      else (enter r labels t s.pos s.level).bind fun frame =>
        .ok { graph := w.drawTo p s, visited := s.pos :: w.visited
              stack := frame :: ⟨p, pending⟩ :: below } := by
  have hadd := Graph.addEdge_ok_iff.mpr ⟨Graph.has_iff.mpr hp, Graph.has_iff.mpr hs, rfl,
    Graph.link_of_live hp hs { level := s.level, loop := w.graph.reachable s.pos p }⟩
  unfold Walk.step
  rw [hstack]
  simp only [hadd]
  rfl

theorem run_of_stack_eq_nil {fuel : Nat} (hstack : w.stack = []) :
    run r labels t fuel w = .ok w := by
  cases fuel with
  | zero => rfl
  | succ fuel =>
    unfold run
    rw [hstack]
    rfl

theorem enter_followedBy (hlabels : r.labelIndex = .ok labels)
    (hlabels' : (r.followedBy extra).labelIndex = .ok labels')
    (hadded : r.NeverAdded extra labels' t) {p : Int} {level : Int64} {frame : Frame}
    (hp : (r.opAt? p).isSome) (hreached : (r.followedBy extra).Reached labels' t p)
    (h : enter r labels t p level = .ok frame) :
    enter (r.followedBy extra) labels' t p level = .ok frame := by
  obtain ⟨rfl, hss⟩ := enter_eq_ok h hp
  have hss' := Routine.successors?_followedBy hlabels hlabels' hss
    fun q hq => hadded q (hreached.next hq)
  unfold enter
  rw [hss']

section Lockstep

variable (hlabels : r.labelIndex = .ok labels)
  (hlabels' : (r.followedBy extra).labelIndex = .ok labels') (hadded : r.NeverAdded extra labels' t)

include hlabels hlabels' hadded

/-- One walk steps as the other does. -/
theorem Twin.step (h : Twin w w') (hw : Inv r labels t w)
    (hw' : Inv (r.followedBy extra) labels' t w') (hstep : w.step r labels t = .ok w₁) :
    ∃ w₁', w'.step (r.followedBy extra) labels' t = .ok w₁' ∧ Twin w₁ w₁' := by
  have hlive : ∀ p, p ∈ w.graph.live → p ∈ w'.graph.live := by
    intro p hp
    obtain ⟨op, hop⟩ := Option.isSome_iff_exists.mp (hw.spans.mem_live.mp hp)
    exact hw'.spans.mem_live.mpr (Option.isSome_of_eq_some (Routine.opAt?_followedBy hop))
  have hnext := next_of_step hstep
  cases hnext with
  | rest hstack =>
    refine ⟨w', ?_, h⟩
    unfold Walk.step
    rw [h.stack, hstack]
  | @leave p below hstack =>
    refine ⟨{ w' with stack := below }, ?_, ⟨h.edges, h.nextEdge, h.visited, rfl⟩⟩
    unfold Walk.step
    rw [h.stack, hstack]
  | @draw p s pending below hstack hp hs hseen =>
    obtain ⟨hedges, hnextEdge⟩ := h.drawTo hw.wellFormed hw'.wellFormed hp hs (hlive _ hp) (hlive _ hs)
    refine ⟨{ w' with graph := w'.drawTo p s, stack := ⟨p, pending⟩ :: below }, ?_,
      ⟨hedges, hnextEdge, h.visited, rfl⟩⟩
    rw [step_eq (h.stack.trans hstack) (hlive _ hp) (hlive _ hs), h.visited,
      if_pos (List.contains_iff_mem.mpr hseen)]
  | @enter p s pending below frame hstack hp hs hnew hframe =>
    obtain ⟨hedges, hnextEdge⟩ := h.drawTo hw.wellFormed hw'.wellFormed hp hs (hlive _ hp) (hlive _ hs)
    have hstack' := h.stack.trans hstack
    have hreached : (r.followedBy extra).Reached labels' t s.pos :=
      (hw'.reached p (hw'.top_visited hstack')).next (hw'.leads_top hstack')
    have hframe' := enter_followedBy hlabels hlabels' hadded (hw.spans.mem_live.mp hs) hreached hframe
    refine ⟨{ graph := w'.drawTo p s, visited := s.pos :: w.visited
              stack := frame :: ⟨p, pending⟩ :: below }, ?_, ⟨hedges, hnextEdge, rfl, rfl⟩⟩
    have hseen : w.visited.contains s.pos = false := by simpa using hnew
    rw [step_eq hstack' (hlive _ hp) (hlive _ hs), h.visited, hseen, hframe']
    rfl

/-- One walk comes to its end as the other does, with at least its budget. -/
theorem Twin.run {fuel fuel' : Nat} (h : Twin w w') (hw : Inv r labels t w)
    (hw' : Inv (r.followedBy extra) labels' t w') (hfuel : fuel ≤ fuel')
    (hrun : Walk.run r labels t fuel w = .ok w₁) (hend : w₁.stack = []) :
    ∃ w₁', Walk.run (r.followedBy extra) labels' t fuel' w' = .ok w₁' ∧ Twin w₁ w₁' := by
  induction fuel generalizing w w' fuel' with
  | zero =>
    obtain rfl := Except.ok.inj hrun
    exact ⟨w', run_of_stack_eq_nil (h.stack.trans hend), h⟩
  | succ fuel ih =>
    unfold Walk.run at hrun
    split_ifs at hrun with hempty
    · obtain rfl := Except.ok.inj hrun
      exact ⟨w', run_of_stack_eq_nil (h.stack.trans hend), h⟩
    · cases hstep : w.step r labels t with
      | error f => simp [hstep, bind, Except.bind] at hrun
      | ok w₂ =>
        simp only [hstep, bind, Except.bind] at hrun
        obtain ⟨w₂', hstep', htwin⟩ := h.step hlabels hlabels' hadded hw hw' hstep
        obtain ⟨budget, rfl⟩ : ∃ n, fuel' = n + 1 := ⟨fuel' - 1, by omega⟩
        unfold Walk.run
        rw [h.stack, if_neg hempty]
        simp only [hstep', bind, Except.bind]
        exact ih htwin (hw.next (next_of_step hstep)) (hw'.next (next_of_step hstep')) (by omega) hrun

end Lockstep

end Walk

namespace Routine.BuiltFrom

variable {r : Routine} {extra : List Operation} {labels labels' : LabelIndex} {t : Table}
  {w w' : Walk} {g g' : Graph} {stats stats' : BuildStats}

/-- Operations that control never comes to do not change the walk. -/
theorem twin (h : BuiltFrom r t labels w g stats)
    (h' : BuiltFrom (r.followedBy extra) t labels' w' g' stats')
    (hadded : r.NeverAdded extra labels' t) : Walk.Twin w w' := by
  have hwalk := h.walk_eq
  cases hframe : Walk.enter r labels t 0 0 with
  | error f => simp [Walk.ofRoutine, hframe, bind, Except.bind] at hwalk
  | ok frame =>
    have hframe' := Walk.enter_followedBy h.index_eq h'.index_eq hadded h.start
      ⟨h'.start, ReflTransGen.refl⟩ hframe
    have hstart : Walk.Twin { graph := .ofOps r.ops, visited := [0], stack := [frame] }
        { graph := .ofOps (r.followedBy extra).ops, visited := [0], stack := [frame] } :=
      ⟨rfl, rfl, rfl, rfl⟩
    have hfuel : Walk.fuel r ≤ Walk.fuel (r.followedBy extra) := by
      simp only [Walk.fuel, followedBy, List.length_append]
      omega
    simp only [Walk.ofRoutine, hframe, bind, Except.bind] at hwalk
    obtain ⟨w₁, hrun, htwin⟩ := hstart.run h.index_eq h'.index_eq hadded
      (Walk.Inv.start_of_enter h.start hframe) (Walk.Inv.start_of_enter h'.start hframe') hfuel
      hwalk h.finished.stack
    have hwalk' := h'.walk_eq
    simp only [Walk.ofRoutine, hframe', bind, Except.bind] at hwalk'
    obtain rfl := Except.ok.inj (hrun.symm.trans hwalk')
    exact htwin

end Routine.BuiltFrom

end FlowRecovery

import FlowRecovery.Proofs.Flow.Prolonged

/-! What can go wrong with labels. The index of labels is refused only if a label is defined twice. With
an index, the walk and the joining of trailing code draw edges between positions of the routine, so no
edge is refused, and all that can fail is to look up a label that an operation names. -/

namespace FlowRecovery

variable {r : Routine} {labels : LabelIndex} {t : Table} {p : Int} {f : Fault}

namespace Routine

/-! ### The index of labels -/

/-- The labels that the routine defines, in their order. -/
def definedLabels (r : Routine) : List Int := r.ops.filterMap Operation.label?

theorem indexLabels_eq_error {routine pos : Int} {idx : LabelIndex} {ops : List Operation}
    (h : indexLabels routine pos idx ops = .error f) :
    ∃ message, f = .coded .duplicateLabel message := by
  fun_induction indexLabels routine pos idx ops with
  | case1 => simp at h
  | case2 pos idx op rest hnone ih => exact ih h
  | case3 pos idx op rest label hlabel earlier hfind => exact ⟨_, (Except.error.inj h).symm⟩
  | case4 pos idx op rest label hlabel hfind ih => exact ih h

/-- Labels that are distinct and new can be indexed, and are found afterwards. -/
theorem exists_indexLabels {routine pos : Int} {idx : LabelIndex} {ops : List Operation}
    (hnodup : (ops.filterMap Operation.label?).Nodup)
    (hnew : ∀ label ∈ ops.filterMap Operation.label?, idx.find? label = none) :
    ∃ labels, indexLabels routine pos idx ops = .ok labels ∧
      ∀ label ∈ ops.filterMap Operation.label?, (labels.find? label).isSome = true := by
  induction ops generalizing pos idx with
  | nil => exact ⟨idx, rfl, by simp⟩
  | cons op rest ih =>
    cases hlabel : op.label? with
    | none =>
      rw [List.filterMap_cons_none hlabel] at hnodup hnew ⊢
      obtain ⟨labels, hok, hfound⟩ := @ih (pos + 1) idx hnodup hnew
      exact ⟨labels, by simp [indexLabels, hlabel, hok], hfound⟩
    | some own =>
      rw [List.filterMap_cons_some hlabel] at hnodup hnew ⊢
      obtain ⟨hown, hrest⟩ := List.nodup_cons.mp hnodup
      have hnone : idx.find? own = none := hnew own (List.mem_cons_self ..)
      have hnew' : ∀ label ∈ rest.filterMap Operation.label?,
          (idx.insert own pos).find? label = none := by
        intro label hmem
        have hne : label ≠ own := by
          rintro rfl
          exact hown hmem
        rw [LabelIndex.find?_insert, if_neg hne]
        exact hnew label (List.mem_cons_of_mem _ hmem)
      obtain ⟨labels, hok, hfound⟩ := @ih (pos + 1) _ hrest hnew'
      refine ⟨labels, by simp [indexLabels, hlabel, hnone, hok], ?_⟩
      intro label hmem
      rcases List.mem_cons.mp hmem with rfl | hmem
      · have hhere : (idx.insert label pos).find? label = some pos := by
          rw [LabelIndex.find?_insert, if_pos rfl]
        rw [find?_indexLabels_of_find? hok hhere]
        rfl
      · exact hfound label hmem

theorem exists_labelIndex (h : r.definedLabels.Nodup) :
    ∃ labels, r.labelIndex = .ok labels ∧
      ∀ label ∈ r.definedLabels, (labels.find? label).isSome = true :=
  exists_indexLabels h fun _ _ => rfl

/-! ### Looking up labels -/

/-- The operation at `p` names a label of its own routine that is not in the index. -/
def LosesLabel (r : Routine) (labels : LabelIndex) (p : Int) (f : Fault) : Prop :=
  ∃ op label, r.opAt? p = some op ∧ op.localTarget? r.id = some label ∧
    r.labelPos labels label = .error f

theorem LosesLabel.coded (h : r.LosesLabel labels p f) :
    ∃ message, f = .coded .unknownLabel message := by
  obtain ⟨op, label, -, -, hpos⟩ := h
  unfold labelPos at hpos
  split at hpos
  · simp at hpos
  · exact ⟨_, (Except.error.inj hpos).symm⟩

theorem successorsOf_eq_error {op : Operation} {level : Int64}
    (h : r.successorsOf labels t op p level = .error f) :
    ∃ label, op.localTarget? r.id = some label ∧ r.labelPos labels label = .error f := by
  cases hlocal : op.localTarget? r.id with
  | none => simp [successorsOf, hlocal] at h
  | some label =>
    cases hpos : r.labelPos labels label with
    | ok target => simp [successorsOf, hlocal, hpos, bind, Except.bind] at h
    | error f' =>
      simp only [successorsOf, hlocal, hpos, bind, Except.bind] at h
      obtain rfl := Except.error.inj h
      exact ⟨label, rfl, hpos⟩

/-- Control goes to positions of the routine only. -/
theorem isSome_opAt?_of_leads (hindex : r.labelIndex = .ok labels) {q : Int}
    (h : r.Leads labels t p q) : (r.opAt? q).isSome = true := by
  obtain ⟨level, ss, hss, s, hs, rfl⟩ := h
  obtain ⟨op, -, hown⟩ := successors?_eq_ok hss
  have honward : s ∈ r.before t op p level ++ r.after t op p level →
      (r.opAt? s.pos).isSome = true := by
    intro hmem
    rw [pos_of_mem_onward hmem]
    by_contra hnone
    simp [before, after, fallsThrough, holdsOn, Option.not_isSome_iff_eq_none.mp hnone] at hmem
  rcases successorsOf_eq_ok_iff.mp hown with ⟨-, rfl⟩ | ⟨label, target, -, hfind, rfl⟩
  · exact honward hs
  · rw [List.mem_append, List.mem_cons] at hs
    rcases hs with hs | rfl | hs
    · exact honward (List.mem_append_left _ hs)
    · obtain ⟨op', hop', -⟩ := label_of_find? hindex hfind
      exact Option.isSome_of_eq_some hop'
    · exact honward (List.mem_append_right _ hs)

end Routine

/-! ### The walk -/

namespace Walk

variable {w : Walk}

theorem enter_eq_error {level : Int64} (h : enter r labels t p level = .error f) :
    r.LosesLabel labels p f := by
  unfold enter at h
  split at h
  · simp at h
  · next f' hss =>
    obtain rfl := Except.error.inj h
    obtain ⟨op, hop, hown⟩ := Option.map_eq_some_iff.mp hss
    obtain ⟨label, hlocal, hpos⟩ := Routine.successorsOf_eq_error hown
    exact ⟨op, label, hop, hlocal, hpos⟩
  · simp at h

section Indexed

variable (hindex : r.labelIndex = .ok labels)

include hindex

/-- A step draws its edge in any case; it fails if the position that it enters names no label. -/
theorem step_eq_error (hinv : Inv r labels t w) (h : w.step r labels t = .error f) :
    ∃ p, r.Reached labels t p ∧ r.LosesLabel labels p f := by
  match hstack : w.stack with
  | [] => simp [step, hstack] at h
  | ⟨p, []⟩ :: below => simp [step, hstack] at h
  | ⟨p, s :: pending⟩ :: below =>
    have hleads := hinv.leads_top hstack
    have hp := hinv.top_visited hstack
    have hs := hinv.spans.mem_live.mpr (Routine.isSome_opAt?_of_leads hindex hleads)
    rw [step_eq hstack (hinv.visited_live p hp) hs] at h
    split_ifs at h
    cases hframe : enter r labels t s.pos s.level with
    | ok frame => simp [hframe, Except.bind] at h
    | error f' =>
      simp only [hframe, Except.bind] at h
      obtain rfl := Except.error.inj h
      exact ⟨s.pos, (hinv.reached p hp).next hleads, enter_eq_error hframe⟩

theorem run_eq_error {fuel : Nat} (hinv : Inv r labels t w)
    (h : run r labels t fuel w = .error f) : ∃ p, r.Reached labels t p ∧ r.LosesLabel labels p f := by
  induction fuel generalizing w with
  | zero => simp [run] at h
  | succ fuel ih =>
    unfold run at h
    split_ifs at h
    cases hstep : w.step r labels t with
    | error f' =>
      simp only [hstep, bind, Except.bind] at h
      obtain rfl := Except.error.inj h
      exact step_eq_error hindex hinv hstep
    | ok w' =>
      simp only [hstep, bind, Except.bind] at h
      exact ih (hinv.next (next_of_step hstep)) h

theorem ofRoutine_eq_error (hstart : (r.opAt? 0).isSome) (h : ofRoutine r labels t = .error f) :
    ∃ p, r.Reached labels t p ∧ r.LosesLabel labels p f := by
  cases hframe : enter r labels t 0 0 with
  | error f' =>
    simp only [ofRoutine, hframe, bind, Except.bind] at h
    obtain rfl := Except.error.inj h
    exact ⟨0, ⟨hstart, .refl⟩, enter_eq_error hframe⟩
  | ok frame =>
    simp only [ofRoutine, hframe, bind, Except.bind] at h
    exact run_eq_error hindex (Inv.start_of_enter hstart hframe) h

end Indexed

end Walk

/-! ### Trailing code -/

namespace Tail

variable {s : Tail} {source target : Int} {a : Attrs}

theorem draw_of_live (hs : source ∈ s.graph.live) (ht : target ∈ s.graph.live) :
    s.draw r source target a = s.join source target a := by
  have hadd := Graph.addEdge_ok_iff.mpr ⟨Graph.has_iff.mpr hs, Graph.has_iff.mpr ht, rfl,
    Graph.link_of_live hs ht a⟩
  simp only [draw, hadd, join]

variable (hindex : r.labelIndex = .ok labels)

include hindex

/-- Attaching a position keeps the positions, or fails for the label at its side. -/
theorem attach_cases {pos : Nat} (hspans : s.graph.Spans r) (hpos : 0 < pos)
    (hlt : pos < r.ops.length) (hs : s.fault = none) :
    (s.attach r labels t pos).fault = none ∧ (s.attach r labels t pos).graph.Spans r ∨
      ∃ f label, (s.attach r labels t pos).fault = some f ∧ sideLabel? r t pos = some label ∧
        r.labelPos labels label = .error f := by
  have hbefore : (pos : Int) - 1 ∈ s.graph.live :=
    hspans.mem_live.mpr (Routine.isSome_opAt?_iff.mpr ⟨by omega, by omega⟩)
  have hhere : (pos : Int) ∈ s.graph.live :=
    hspans.mem_live.mpr (Routine.isSome_opAt?_iff.mpr ⟨by omega, by omega⟩)
  have hjoined : (s.join (pos - 1) pos {}).graph.Spans r := hspans.link _ _ _
  have hok : (s.join (pos - 1) pos {}).fault.isSome = false := by
    rw [join, hs]
    rfl
  simp only [attach, draw_of_live hbefore hhere, hok, Bool.false_eq_true, if_false]
  cases hside : sideLabel? r t pos with
  | none => exact Or.inl ⟨hs, hjoined⟩
  | some label =>
    cases hfind : r.labelPos labels label with
    | error f =>
      simp only [hfind]
      exact Or.inr ⟨f, label, rfl, rfl, hfind⟩
    | ok target =>
      have htarget : labels.find? label = some target := by
        unfold Routine.labelPos at hfind
        split at hfind
        · next hsome => rw [hsome, Except.ok.inj hfind]
        · simp at hfind
      obtain ⟨op', hop', -⟩ := Routine.label_of_find? hindex htarget
      have hlive := hjoined.mem_live.mpr (Option.isSome_of_eq_some hop')
      simp only [hfind, draw_of_live (hjoined.mem_live.mpr (hspans.mem_live.mp hhere)) hlive]
      exact Or.inl ⟨hs, hjoined.link _ _ _⟩

end Tail

end FlowRecovery

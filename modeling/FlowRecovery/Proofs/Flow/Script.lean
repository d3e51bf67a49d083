import FlowRecovery.Flow.Build
import FlowRecovery.Proofs.Graph.Operations
import FlowRecovery.Proofs.Flow.Successor

/-! Routines that differ in markers only. Where control can go is read off the actions, and drawing edges
does not look at the operations at all. So the walks of two such routines take the same steps, their
trailing code is joined by the same rounds, and either both graphs can be built, with the same edges, or
neither can, for the same reason. -/

namespace FlowRecovery

variable {r r' : Routine} {labels : LabelIndex} {t : Table}

namespace Operation

variable {op op' : Operation}

/-- What does not look at markers is the same for operations with one action. -/
theorem eq_of_action {α : Type} {f : Operation → α} (hf : ∀ op, f op.clearMarkers = f op)
    (h : op'.action = op.action) : f op' = f op := by
  have hclear : op'.clearMarkers = op.clearMarkers := by
    unfold clearMarkers
    rw [h]
  rw [← hf op', ← hf op, hclear]

end Operation

namespace Routine

/-- The same routine up to markers. -/
structure SameScript (r r' : Routine) : Prop where
  id_eq : r'.id = r.id
  type_eq : r'.type = r.type
  linkedTo_eq : r'.linkedTo = r.linkedTo
  actions : r'.ops.map Operation.action = r.ops.map Operation.action

namespace SameScript

theorem refl (r : Routine) : SameScript r r := ⟨rfl, rfl, rfl, rfl⟩

theorem symm (h : SameScript r r') : SameScript r' r :=
  ⟨h.id_eq.symm, h.type_eq.symm, h.linkedTo_eq.symm, h.actions.symm⟩

theorem trans {r'' : Routine} (h : SameScript r r') (h' : SameScript r' r'') : SameScript r r'' :=
  ⟨h'.id_eq.trans h.id_eq, h'.type_eq.trans h.type_eq, h'.linkedTo_eq.trans h.linkedTo_eq,
    h'.actions.trans h.actions⟩

theorem length_eq (h : SameScript r r') : r'.ops.length = r.ops.length := by
  simpa using congrArg List.length h.actions

/-- At every position stand operations with one action, or none. -/
theorem opAt?_cases (h : SameScript r r') (p : Int) :
    r'.opAt? p = none ∧ r.opAt? p = none ∨
      ∃ op' op, r'.opAt? p = some op' ∧ r.opAt? p = some op ∧ op'.action = op.action := by
  have hmap : (r'.opAt? p).map Operation.action = (r.opAt? p).map Operation.action := by
    unfold opAt?
    split_ifs
    · rw [← List.getElem?_map, h.actions, List.getElem?_map]
    · rfl
  cases hop : r.opAt? p with
  | none =>
    rw [hop, Option.map_none, Option.map_eq_none_iff] at hmap
    exact Or.inl ⟨hmap, rfl⟩
  | some op =>
    rw [hop, Option.map_some, Option.map_eq_some_iff] at hmap
    obtain ⟨op', hop', haction⟩ := hmap
    exact Or.inr ⟨op', op, hop', rfl, haction⟩

end SameScript

/-! ### Labels and successors -/

theorem indexLabels_of_actions {routine pos : Int} {idx : LabelIndex} {ops ops' : List Operation}
    (h : ops'.map Operation.action = ops.map Operation.action) :
    indexLabels routine pos idx ops' = indexLabels routine pos idx ops := by
  induction ops generalizing ops' pos idx with
  | nil =>
    obtain rfl := List.map_eq_nil_iff.mp h
    rfl
  | cons op rest ih =>
    obtain ⟨op', rest', rfl, haction, hrest⟩ := List.map_eq_cons_iff.mp h
    have hlabel : op'.label? = op.label? := Operation.eq_of_action (fun _ => rfl) haction
    unfold indexLabels
    rw [hlabel]
    simp only [ih hrest]

namespace SameScript

variable (h : SameScript r r')

include h

theorem labelIndex_eq : r'.labelIndex = r.labelIndex := by
  rw [labelIndex, labelIndex, h.id_eq, indexLabels_of_actions h.actions]

theorem labelPos_eq (label : Int) : r'.labelPos labels label = r.labelPos labels label := by
  rw [labelPos, labelPos, h.id_eq]

theorem successorsOf_eq {op op' : Operation} (hop : op'.action = op.action) (p : Int)
    (level : Int64) : r'.successorsOf labels t op' p level = r.successorsOf labels t op p level := by
  have hends : t.endsFlow op' = t.endsFlow op := Operation.eq_of_action (fun _ => rfl) hop
  have hroot : op'.root? = op.root? := Operation.eq_of_action (fun _ => rfl) hop
  have hlocal : op'.localTarget? r'.id = op.localTarget? r.id := by
    rw [h.id_eq]
    exact Operation.eq_of_action (f := fun op => op.localTarget? r.id) (fun _ => rfl) hop
  unfold successorsOf fallsThrough holdsOn fallsThrough
  simp only [hends, hroot, hlocal, h.labelPos_eq]
  rcases h.opAt?_cases (p + 1) with ⟨hnone', hnone⟩ | ⟨next', next, hnext', hnext, haction⟩
  · rw [hnone', hnone]
  · have hbehind : t.endsFlow next' = t.endsFlow next := Operation.eq_of_action (fun _ => rfl) haction
    rw [hnext', hnext]
    simp only [Option.isSome_some, Option.any_some, hbehind]

theorem successors?_eq (p : Int) (level : Int64) :
    r'.successors? labels t p level = r.successors? labels t p level := by
  unfold successors?
  rcases h.opAt?_cases p with ⟨hnone', hnone⟩ | ⟨op', op, hop', hop, haction⟩
  · rw [hnone', hnone]
    rfl
  · rw [hop', hop, Option.map_some, Option.map_some, h.successorsOf_eq haction]

theorem sideLabel?_eq (p : Int) : Tail.sideLabel? r' t p = Tail.sideLabel? r t p := by
  unfold Tail.sideLabel?
  rcases h.opAt?_cases p with ⟨hnone', hnone⟩ | ⟨op', op, hop', hop, haction⟩
  · rw [hnone', hnone]
    rfl
  · rw [hop', hop, Option.bind_some, Option.bind_some, h.id_eq]
    exact Operation.eq_of_action (f := fun op =>
      if t.classify op = .jump then none else op.localTarget? r.id) (fun _ => rfl) haction

end SameScript

end Routine

/-! ### The walk -/

namespace Walk

variable (h : r.SameScript r') {ops : List Operation}

def withOps (w : Walk) (ops : List Operation) : Walk := { w with graph := w.graph.withOps ops }

@[simp] theorem stack_withOps (w : Walk) (ops : List Operation) : (w.withOps ops).stack = w.stack := rfl

include h

theorem enter_eq (p : Int) (level : Int64) : enter r' labels t p level = enter r labels t p level := by
  rw [enter, enter, h.successors?_eq]

theorem step_withOps (w : Walk) :
    (w.withOps ops).step r' labels t = (w.step r labels t).map (·.withOps ops) := by
  match hstack : w.stack with
  | [] => simp [step, withOps, hstack, Except.map]
  | ⟨p, []⟩ :: below => simp [step, withOps, hstack, Except.map]
  | ⟨p, s :: pending⟩ :: below =>
    simp only [step, withOps, hstack, Graph.addEdge_withOps, Graph.reachable_withOps, enter_eq h]
    cases hadd : w.graph.addEdge p s.pos
        { level := s.level, loop := w.graph.reachable s.pos p } with
    | error cause => simp [Except.map, edgeFault, h.id_eq]
    | ok drawn =>
      simp only [Except.map]
      split_ifs
      · rfl
      · cases enter r labels t s.pos s.level <;> rfl

theorem run_withOps (fuel : Nat) (w : Walk) :
    run r' labels t fuel (w.withOps ops) = (run r labels t fuel w).map (·.withOps ops) := by
  induction fuel generalizing w with
  | zero => rfl
  | succ fuel ih =>
    unfold run
    rw [step_withOps h, stack_withOps]
    split_ifs
    · rfl
    · cases hstep : w.step r labels t with
      | error f => rfl
      | ok w' => exact ih w'

theorem ofRoutine_withOps :
    ofRoutine r' labels t = (ofRoutine r labels t).map (·.withOps r'.ops) := by
  have hstart : Graph.ofOps r'.ops = (Graph.ofOps r.ops).withOps r'.ops := by
    simp [Graph.ofOps, Graph.withOps, h.length_eq]
  have hfuel : fuel r' = fuel r := by rw [fuel, fuel, h.length_eq]
  unfold ofRoutine
  rw [enter_eq h, hstart, hfuel]
  cases enter r labels t 0 0 with
  | error f => rfl
  | ok frame => exact run_withOps h (fuel r) { graph := .ofOps r.ops, visited := [0], stack := [frame] }

end Walk

/-! ### Trailing code -/

namespace Tail

variable (h : r.SameScript r') {ops : List Operation}

def withOps (s : Tail) (ops : List Operation) : Tail := { s with graph := s.graph.withOps ops }

@[simp] theorem fault_withOps (s : Tail) (ops : List Operation) : (s.withOps ops).fault = s.fault := rfl

@[simp] theorem inDegree_withOps (s : Tail) (ops : List Operation) (p : Int) :
    (s.withOps ops).graph.inDegree p = s.graph.inDegree p := rfl

include h

theorem draw_withOps (s : Tail) (source target : Int) (attrs : Attrs) :
    (s.withOps ops).draw r' source target attrs = (s.draw r source target attrs).withOps ops := by
  unfold draw
  simp only [withOps, Graph.addEdge_withOps]
  cases s.graph.addEdge source target attrs with
  | error cause => simp [Except.map, tailFault, h.id_eq]
  | ok drawn => rfl

theorem attach_withOps (s : Tail) (pos : Int) :
    (s.withOps ops).attach r' labels t pos = (s.attach r labels t pos).withOps ops := by
  unfold attach
  simp only [draw_withOps h, h.sideLabel?_eq, h.labelPos_eq, fault_withOps]
  split_ifs
  · rfl
  · cases sideLabel? r t pos with
    | none => rfl
    | some label =>
      cases hpos : r.labelPos labels label with
      | error f =>
        simp only [hpos]
        rfl
      | ok target =>
        simp only [hpos, inDegree_withOps]
        rfl

theorem back_withOps (n : Nat) (s : Tail) :
    back r' labels t n (s.withOps ops) = (back r labels t n s).withOps ops := by
  fun_induction back r labels t n s with
  | case1 s => rfl
  | case2 s => rfl
  | case3 pos s hin =>
    unfold back
    rw [inDegree_withOps, if_pos hin]
  | case4 pos s hin s' hsome =>
    unfold back
    simp only [inDegree_withOps, if_neg hin, attach_withOps h, fault_withOps]
    rw [if_pos hsome]
  | case5 pos s hin s' hnone ih =>
    conv_lhs => unfold back
    simp only [inDegree_withOps, if_neg hin, attach_withOps h, fault_withOps]
    rw [if_neg hnone]
    exact ih

theorem reconnect_withOps (g : Graph) :
    reconnect (g.withOps ops) r' labels t = (reconnect g r labels t).withOps ops := by
  rw [reconnect, reconnect, h.length_eq]
  exact back_withOps h _ { graph := g }

end Tail

namespace Routine

/-- Routines that differ in markers only are built alike. -/
theorem SameScript.build_eq (h : SameScript r r') :
    r'.build t = (r.build t).map fun built => (built.1.withOps r'.ops, built.2) := by
  have hempty : r'.ops.isEmpty = r.ops.isEmpty := by
    rw [Bool.eq_iff_iff, List.isEmpty_iff_length_eq_zero, List.isEmpty_iff_length_eq_zero, h.length_eq]
  unfold build
  rw [hempty, h.labelIndex_eq]
  split_ifs with hnil
  · have hnone : r'.ops = [] := List.isEmpty_iff.mp (hempty.trans hnil)
    rw [hnone]
    rfl
  · cases hlabels : r.labelIndex with
    | error f => rfl
    | ok labels =>
      cases hwalk : Walk.ofRoutine r labels t with
      | error f => simp [Walk.ofRoutine_withOps h, hwalk, bind, Except.bind, Except.map]
      | ok w =>
        have hstats : BuildStats.ofTail r' ((Tail.reconnect w.graph r labels t).withOps r'.ops) =
            .ofTail r (Tail.reconnect w.graph r labels t) := by
          rw [BuildStats.ofTail, h.length_eq]
          rfl
        simp only [Walk.ofRoutine_withOps h, hwalk, bind, Except.bind, Except.map, Walk.withOps,
          Tail.reconnect_withOps h, Tail.fault_withOps, hstats]
        cases (Tail.reconnect w.graph r labels t).fault <;> rfl

end Routine

end FlowRecovery

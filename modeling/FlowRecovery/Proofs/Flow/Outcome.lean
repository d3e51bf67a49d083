import FlowRecovery.Proofs.Flow.Extent
import FlowRecovery.Proofs.Flow.Faults

/-! When a graph is built and when not. Building fails if a label is defined twice, or if an operation that
control comes to, or that is joined with the trailing code, names a label that is not defined. There is no
other fault: the walk comes to its end within its budget, every position that it looks at is one of the
routine, and all edges are drawn between such positions. -/

namespace FlowRecovery

open FlowRecovery.Graph

variable {r : Routine} {labels : LabelIndex} {t : Table} {w : Walk} {p : Int} {f : Fault}

namespace Routine

/-! ### Labels -/

/-- Two operations define one label. -/
def DefinesTwice (r : Routine) : Prop :=
  ∃ (p q : Int) (op op' : Operation) (label : Int), p < q ∧ r.opAt? p = some op ∧
    r.opAt? q = some op' ∧ op.label? = some label ∧ op'.label? = some label

theorem nodup_definedLabels_iff : r.definedLabels.Nodup ↔ ¬ r.DefinesTwice := by
  unfold definedLabels List.Nodup
  rw [List.pairwise_filterMap, List.pairwise_iff_getElem]
  constructor
  · rintro hall ⟨p, q, op, op', label, hlt, hop, hop', hlabel, hlabel'⟩
    obtain ⟨hp, hget⟩ := opAt?_eq_some hop
    obtain ⟨hq, hget'⟩ := opAt?_eq_some hop'
    obtain ⟨hi, rfl⟩ := List.getElem?_eq_some_iff.mp hget
    obtain ⟨hj, rfl⟩ := List.getElem?_eq_some_iff.mp hget'
    exact hall _ _ hi hj (by omega) label hlabel label hlabel' rfl
  · intro hnone i j hi hj hij label hlabel label' hlabel' heq
    refine hnone ⟨i, j, _, _, label, by omega, ?_, ?_, hlabel, heq ▸ hlabel'⟩
    · simp [opAt?, hi]
    · simp [opAt?, hj]

theorem nodup_of_indexLabels {routine pos : Int} {idx : LabelIndex} {ops : List Operation}
    (h : indexLabels routine pos idx ops = .ok labels) :
    (ops.filterMap Operation.label?).Nodup ∧
      ∀ label ∈ ops.filterMap Operation.label?, idx.find? label = none := by
  fun_induction indexLabels routine pos idx ops with
  | case1 => simp
  | case2 pos idx op rest hnone ih => simpa [List.filterMap_cons_none hnone] using ih h
  | case3 pos idx op rest label hlabel earlier hfind => simp at h
  | case4 pos idx op rest label hlabel hfind ih =>
    obtain ⟨hnodup, hnew⟩ := ih h
    rw [List.filterMap_cons_some hlabel, List.nodup_cons]
    refine ⟨⟨fun hmem => ?_, hnodup⟩, ?_⟩
    · have := hnew label hmem
      simp [LabelIndex.find?_insert] at this
    · intro other hother
      rcases List.mem_cons.mp hother with rfl | hother
      · exact hfind
      · have := hnew other hother
        rw [LabelIndex.find?_insert] at this
        split_ifs at this
        exact this

theorem nodup_of_labelIndex (h : r.labelIndex = .ok labels) : r.definedLabels.Nodup :=
  (nodup_of_indexLabels h).1

theorem find?_eq_none_iff (h : r.labelIndex = .ok labels) {label : Int} :
    labels.find? label = none ↔ label ∉ r.definedLabels := by
  constructor
  · intro hnone hmem
    obtain ⟨labels', h', hfound⟩ := exists_labelIndex (nodup_of_labelIndex h)
    obtain rfl := Except.ok.inj (h.symm.trans h')
    simpa [hnone] using hfound label hmem
  · intro hnot
    by_contra hsome
    obtain ⟨q, hq⟩ := Option.ne_none_iff_exists'.mp hsome
    obtain ⟨op, hop, hown⟩ := label_of_find? h hq
    exact hnot (List.mem_filterMap.mpr ⟨op, List.mem_of_getElem? (opAt?_eq_some hop).2, hown⟩)

/-- The operation at `p` names a label of its own routine that is not defined. -/
def Dangles (r : Routine) (p : Int) : Prop :=
  ∃ op label, r.opAt? p = some op ∧ op.localTarget? r.id = some label ∧ label ∉ r.definedLabels

theorem dangles_iff (h : r.labelIndex = .ok labels) :
    r.Dangles p ↔ ∃ f, r.LosesLabel labels p f := by
  constructor
  · rintro ⟨op, label, hop, hlocal, hnot⟩
    have hnone : labels.find? label = none := (find?_eq_none_iff h).mpr hnot
    cases hpos : r.labelPos labels label with
    | ok target => simp [labelPos, hnone] at hpos
    | error f => exact ⟨f, op, label, hop, hlocal, hpos⟩
  · rintro ⟨f, op, label, hop, hlocal, hpos⟩
    refine ⟨op, label, hop, hlocal, (find?_eq_none_iff h).mp ?_⟩
    unfold labelPos at hpos
    split at hpos
    · simp at hpos
    · assumption

theorem localTarget?_of_sideLabel? {label : Int} (h : Tail.sideLabel? r t p = some label) :
    ∃ op, r.opAt? p = some op ∧ op.localTarget? r.id = some label := by
  obtain ⟨op, hop, hown⟩ := Option.bind_eq_some_iff.mp h
  split_ifs at hown
  exact ⟨op, hop, hown⟩

end Routine

/-! ### The end of the walk -/

namespace Walk

theorem run_add (n m : Nat) (w : Walk) :
    run r labels t (n + m) w = (run r labels t n w).bind (run r labels t m) := by
  induction n generalizing w with
  | zero => simp [run, Except.bind]
  | succ n ih =>
    by_cases hempty : w.stack.isEmpty = true
    · have hstack := List.isEmpty_iff.mp hempty
      simp only [run_of_stack_eq_nil hstack, Except.bind]
    · rw [Nat.succ_add]
      cases hstep : w.step r labels t with
      | error f => simp [run, hempty, hstep, bind, Except.bind]
      | ok w' => simp [run, hempty, hstep, bind, Except.bind, ih]

/-- The walk from the first operation after `n` steps, or at its end if that comes earlier. -/
def after (r : Routine) (labels : LabelIndex) (t : Table) (n : Nat) : Except Fault Walk := do
  let frame ← enter r labels t 0 0
  run r labels t n { graph := .ofOps r.ops, visited := [0], stack := [frame] }

/-- The walk looks at positions of the routine only, at every step, and comes to its end. -/
structure Ends (r : Routine) (labels : LabelIndex) (t : Table) : Prop where
  inside : ∀ n w, after r labels t n = .ok w → ∀ frame ∈ w.stack, (r.opAt? frame.pos).isSome = true ∧
    ∀ s ∈ frame.pending, (r.opAt? s.pos).isSome = true
  stays : ∀ n, fuel r ≤ n → after r labels t n = ofRoutine r labels t
  done : ∀ w, ofRoutine r labels t = .ok w → w.stack = []

theorem Inv.pending_inside (hindex : r.labelIndex = .ok labels) (h : Inv r labels t w) {frame : Frame}
    (hframe : frame ∈ w.stack) {s : Successor} (hs : s ∈ frame.pending) :
    (r.opAt? s.pos).isSome = true := by
  obtain ⟨level, -, hss⟩ := h.progress frame.pos (h.frame_visited frame hframe)
  refine Routine.isSome_opAt?_of_leads (t := t) hindex ⟨level, _, hss, s, ?_, rfl⟩
  refine List.mem_append_right _ (List.mem_flatMap.mpr ⟨frame, hframe, ?_⟩)
  rwa [if_pos rfl]

theorem ends (hindex : r.labelIndex = .ok labels) (hstart : (r.opAt? 0).isSome = true) :
    Ends r labels t := by
  refine ⟨?_, ?_, fun w hw => (finished_of_ofRoutine hstart hw).stack⟩
  · intro n w hw frame hframe
    cases hfirst : enter r labels t 0 0 with
    | error f => simp [after, hfirst, bind, Except.bind] at hw
    | ok first =>
      simp only [after, hfirst, bind, Except.bind] at hw
      have hinv := run_induction (fun _ _ hw hnext => hw.next hnext) (Inv.start_of_enter hstart hfirst) hw
      exact ⟨hinv.spans.mem_live.mp (hinv.visited_live _ (hinv.frame_visited frame hframe)),
        fun s hs => hinv.pending_inside hindex hframe hs⟩
  · intro n hn
    obtain ⟨m, rfl⟩ := Nat.exists_eq_add_of_le hn
    cases hfirst : enter r labels t 0 0 with
    | error f => simp [after, ofRoutine, hfirst, bind, Except.bind]
    | ok first =>
      have hsplit : after r labels t (fuel r + m) =
          (ofRoutine r labels t).bind (run r labels t m) := by
        simp only [after, ofRoutine, hfirst, bind, Except.bind, run_add]
      rw [hsplit]
      cases hwalk : ofRoutine r labels t with
      | error f => rfl
      | ok w => exact run_of_stack_eq_nil (finished_of_ofRoutine hstart hwalk).stack

end Walk

/-! ### Building -/

namespace Routine

/-- A graph cannot be built only if a label is defined twice, or if a label that is named is missing where
control comes to or in trailing code. -/
theorem build_eq_error (h : r.build t = .error f) :
    r.labelIndex = .error f ∨ ∃ labels p, r.labelIndex = .ok labels ∧ r.LosesLabel labels p f ∧
      (r.Reached labels t p ∨ r.Trails labels t p ∧ (Tail.sideLabel? r t p).isSome = true) := by
  unfold build at h
  split_ifs at h with hempty
  have hlength : 0 < r.ops.length := by
    rw [List.length_pos_iff]
    exact fun hnil => hempty (List.isEmpty_iff.mpr hnil)
  cases hlabels : r.labelIndex with
  | error f' =>
    simp only [hlabels, bind, Except.bind] at h
    obtain rfl := Except.error.inj h
    exact Or.inl rfl
  | ok labels =>
    refine Or.inr ⟨labels, ?_⟩
    have hstart : (r.opAt? 0).isSome := isSome_opAt?_iff.mpr ⟨by omega, by omega⟩
    cases hwalk : Walk.ofRoutine r labels t with
    | error f' =>
      simp only [hlabels, hwalk, bind, Except.bind] at h
      obtain rfl := Except.error.inj h
      obtain ⟨p, hreached, hloses⟩ := Walk.ofRoutine_eq_error hlabels hstart hwalk
      exact ⟨p, rfl, hloses, Or.inl hreached⟩
    | ok w =>
      have hw := Walk.finished_of_ofRoutine hstart hwalk
      simp only [hlabels, hwalk, bind, Except.bind] at h
      cases hfault : (Tail.reconnect w.graph r labels t).fault with
      | none => simp [hfault] at h
      | some f' =>
        simp only [hfault] at h
        obtain rfl := Except.error.inj h
        rcases Tail.Extent.of_reconnect hw hlabels hlength with ⟨k, hk, -⟩ | ⟨pos, s, hs, htrails, -, heq⟩
        · simp [hk.noFault] at hfault
        · have hspans : s.graph.Spans r := by
            have hext := hs.spine.extended
            exact ⟨hext.ops.trans hw.inv.spans.ops, hext.live.trans hw.inv.spans.live⟩
          have htwo := htrails.two_le
          have hinside := htrails.inside
          rw [heq] at hfault
          have hpos : 0 < pos ∧ pos < r.ops.length := by omega
          rcases Tail.attach_cases hlabels (t := t) hspans hpos.1 hpos.2 hs.noFault with
            ⟨hnone, -⟩ | ⟨f'', label, hsome, hside, hlost⟩
          · simp [hnone] at hfault
          · obtain rfl := Option.some.inj (hsome.symm.trans hfault)
            obtain ⟨op, hop, hown⟩ := localTarget?_of_sideLabel? hside
            exact ⟨pos, rfl, ⟨op, label, hop, hown, hlost⟩, Or.inr ⟨htrails, Option.isSome_of_eq_some hside⟩⟩

/-- What building fails with says what is wrong with a label. -/
theorem code?_of_build_eq_error (h : r.build t = .error f) :
    ∃ code message, f = .coded code message ∧ (code = .duplicateLabel ∨ code = .unknownLabel) := by
  rcases build_eq_error h with hindex | ⟨labels, p, -, hloses, -⟩
  · obtain ⟨message, rfl⟩ := indexLabels_eq_error hindex
    exact ⟨_, message, rfl, Or.inl rfl⟩
  · obtain ⟨message, rfl⟩ := hloses.coded
    exact ⟨_, message, rfl, Or.inr rfl⟩

/-- Every label that an operation names is one that the routine defines. -/
def NamesDefined (r : Routine) : Prop :=
  ∀ op ∈ r.ops, ∀ label, op.localTarget? r.id = some label → label ∈ r.definedLabels

/-- A routine whose labels are distinct and whose operations name labels that it defines has a graph. -/
theorem exists_build (hlabels : r.definedLabels.Nodup) (hnames : r.NamesDefined) (t : Table) :
    ∃ g stats, r.build t = .ok (g, stats) := by
  cases hbuild : r.build t with
  | ok built => exact ⟨built.1, built.2, rfl⟩
  | error f =>
    exfalso
    obtain ⟨labels, hindex, -⟩ := exists_labelIndex hlabels
    rcases build_eq_error hbuild with hrefused | ⟨labels', p, hindex', hloses, -⟩
    · simp [hindex] at hrefused
    · obtain ⟨op, label, hop, hlocal, hnot⟩ := (dangles_iff hindex').mpr ⟨f, hloses⟩
      exact hnot (hnames op (List.mem_of_getElem? (opAt?_eq_some hop).2) label hlocal)

/-- Where a graph has been built, no label was missing. -/
theorem not_dangles_of_build {g : Graph} {stats : BuildStats} (h : r.build t = .ok (g, stats))
    (hindex : r.labelIndex = .ok labels)
    (hp : r.Reached labels t p ∨ r.Trails labels t p ∧ (Tail.sideLabel? r t p).isSome = true) :
    ¬ r.Dangles p := by
  rintro ⟨op, label, hop, hlocal, hnot⟩
  rw [← find?_eq_none_iff hindex] at hnot
  rcases build_eq_ok h with ⟨hops, -, -⟩ | ⟨labels', w, hb⟩
  · simp [opAt?, hops] at hop
  · obtain rfl := Except.ok.inj (hindex.symm.trans hb.index_eq)
    rcases hp with hreached | ⟨htrails, hside⟩
    · obtain ⟨level, -, hss⟩ := hb.finished.successors (hb.finished.mem_visited.mpr hreached)
      obtain ⟨op', hop', hown⟩ := successors?_eq_ok hss
      obtain rfl := Option.some.inj (hop'.symm.trans hop)
      simp [successorsOf, hlocal, labelPos, hnot, bind, Except.bind] at hown
    · obtain ⟨label', hside⟩ := Option.isSome_iff_exists.mp hside
      obtain ⟨op', hop', hlocal'⟩ := localTarget?_of_sideLabel? hside
      obtain rfl := Option.some.inj (hop'.symm.trans hop)
      obtain rfl := Option.some.inj (hlocal'.symm.trans hlocal)
      obtain ⟨k, hk, hstop⟩ := hb.exists_extent
      obtain ⟨tail, -, hjoined⟩ := hk.edges
      have hfound := hjoined.found p label' ((hk.trails_iff hb.finished hstop).mp htrails).1 hside
      simp [hnot] at hfound

theorem exists_labelIndex_iff : (∃ labels, r.labelIndex = .ok labels) ↔ ¬ r.DefinesTwice := by
  rw [← nodup_definedLabels_iff]
  constructor
  · rintro ⟨labels, h⟩
    exact nodup_of_labelIndex h
  · intro h
    obtain ⟨labels, hindex, -⟩ := exists_labelIndex h
    exact ⟨labels, hindex⟩

theorem build_of_labelIndex_eq_error (h : r.labelIndex = .error f) : r.build t = .error f := by
  have hne : r.ops.isEmpty = false := by
    cases hops : r.ops with
    | nil => simp [labelIndex, hops, indexLabels] at h
    | cons op rest => rfl
  simp [build, hne, h, bind, Except.bind]

theorem build_eq_duplicateLabel_iff :
    (∃ f, r.build t = .error f ∧ f.code? = some .duplicateLabel) ↔ r.DefinesTwice := by
  constructor
  · rintro ⟨f, hbuild, hcode⟩
    by_contra hnot
    obtain ⟨labels, hok⟩ := exists_labelIndex_iff.mpr hnot
    rcases build_eq_error hbuild with hrefused | ⟨labels', p, -, hloses, -⟩
    · simp [hok] at hrefused
    · obtain ⟨message, rfl⟩ := hloses.coded
      simp at hcode
  · intro htwice
    cases hindex : r.labelIndex with
    | ok labels => exact absurd htwice (exists_labelIndex_iff.mp ⟨labels, hindex⟩)
    | error f =>
      obtain ⟨message, rfl⟩ := indexLabels_eq_error hindex
      exact ⟨_, build_of_labelIndex_eq_error hindex, rfl⟩

theorem build_eq_unknownLabel_iff :
    (∃ f, r.build t = .error f ∧ f.code? = some .unknownLabel) ↔
      ∃ labels p, r.labelIndex = .ok labels ∧ r.Dangles p ∧
        (r.Reached labels t p ∨ r.Trails labels t p ∧ (Tail.sideLabel? r t p).isSome = true) := by
  constructor
  · rintro ⟨f, hbuild, hcode⟩
    rcases build_eq_error hbuild with hrefused | ⟨labels, p, hindex, hloses, hp⟩
    · obtain ⟨message, rfl⟩ := indexLabels_eq_error hrefused
      simp at hcode
    · exact ⟨labels, p, hindex, (dangles_iff hindex).mpr ⟨f, hloses⟩, hp⟩
  · rintro ⟨labels, p, hindex, hdangles, hp⟩
    cases hbuild : r.build t with
    | ok built => exact absurd hdangles (not_dangles_of_build hbuild hindex hp)
    | error f =>
      rcases build_eq_error hbuild with hrefused | ⟨labels', p', -, hloses, -⟩
      · simp [hindex] at hrefused
      · obtain ⟨message, rfl⟩ := hloses.coded
        exact ⟨_, rfl, rfl⟩

/-- Building fails for a label that is defined twice if and only if there is one. With labels that are
distinct it fails for a missing label if and only if an operation that control comes to names one, or an
operation in trailing code that is joined, other than a jump. It never fails otherwise; the walk looks at
positions of the routine only and comes to its end. -/
theorem build_fails_iff (r : Routine) (t : Table) :
    ((∃ f, r.build t = .error f ∧ f.code? = some .duplicateLabel) ↔ r.DefinesTwice) ∧
    ((∃ f, r.build t = .error f ∧ f.code? = some .unknownLabel) ↔
      ∃ labels p, r.labelIndex = .ok labels ∧ r.Dangles p ∧
        (r.Reached labels t p ∨ r.Trails labels t p ∧ (Tail.sideLabel? r t p).isSome = true)) ∧
    ((∃ labels, r.labelIndex = .ok labels) ↔ ¬ r.DefinesTwice) ∧
    (∀ f, r.build t = .error f → f.code? = some .duplicateLabel ∨ f.code? = some .unknownLabel) ∧
    ∀ labels, r.labelIndex = .ok labels → (r.opAt? 0).isSome = true → Walk.Ends r labels t := by
  refine ⟨build_eq_duplicateLabel_iff, build_eq_unknownLabel_iff, exists_labelIndex_iff, ?_,
    fun labels hindex hstart => Walk.ends hindex hstart⟩
  intro f hbuild
  obtain ⟨code, message, rfl, hcode⟩ := code?_of_build_eq_error hbuild
  simpa using hcode

end Routine

end FlowRecovery

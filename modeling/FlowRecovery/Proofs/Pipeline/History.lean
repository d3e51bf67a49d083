import FlowRecovery.Proofs.Flow.Script
import FlowRecovery.Proofs.Pipeline.Schedule
import FlowRecovery.Proofs.Reduce.Operations

/-! What earlier runs leave behind. A run leaves markers on the operations of its routines and nothing
else, whether it succeeds or not, and whatever the schedule is. A run with one worker that comes later
yields the same with them as without: the faults, the statistics, the graphs and the skipped branches do
not depend on markers, and if branches are structured then the markers of an earlier run are gone before
anything looks at them. -/

namespace FlowRecovery

open FlowRecovery.Graph

variable {s : Settings} {r r' : Routine} {g : Graph} {marked c : Bool}

/-! ### Entries -/

/-- The same graph up to markers, and with the same markers at every vertex if `marked` is set. -/
structure Graph.SameFlow (marked : Bool) (g g' : Graph) : Prop where
  live_eq : g'.live = g.live
  edges_eq : g'.edges = g.edges
  nextEdge_eq : g'.nextEdge = g.nextEdge
  actions : g'.ops.map Operation.action = g.ops.map Operation.action
  markers : marked = true → ∀ x, g'.markers x = g.markers x

theorem Graph.sameFlow_withOps {ops : List Operation}
    (h : ops.map Operation.action = g.ops.map Operation.action)
    (hagree : marked = true → g.AgreesOn ops) : g.SameFlow marked (g.withOps ops) :=
  ⟨rfl, rfl, rfl, h, fun hmarked x => markers_congr ((hagree hmarked).op? x)⟩

/-- The same entry up to markers, which are the same at every vertex if `marked` is set. -/
structure RoutineResult.SameFlow (marked : Bool) (rr rr' : RoutineResult) : Prop where
  id_eq : rr'.id = rr.id
  routine : Option.Rel Routine.SameScript rr.routine rr'.routine
  graph : Option.Rel (Graph.SameFlow marked) rr.graph rr'.graph
  build_eq : rr'.build = rr.build
  reduce_eq : rr'.reduce = rr.reduce
  fault_eq : rr'.fault = rr.fault

namespace Settings

/-- Recovering changes nothing about a routine but its markers. -/
theorem Recovers.sameScript {rr : RoutineResult} (h : s.Recovers r rr) :
    ∃ r', rr.routine = some r' ∧ r.SameScript r' := by
  cases h with
  | unbuilt => exact ⟨r, rfl, .refl r⟩
  | unstructured hbuild =>
    exact ⟨_, rfl, rfl, rfl, rfl, by rw [actions_minimize hbuild, (spans_of_build hbuild).ops]⟩
  | ok hbuild =>
    exact ⟨_, rfl, rfl, rfl, rfl, by rw [actions_minimize hbuild, (spans_of_build hbuild).ops]⟩

/-- What a routine yields does not depend on the markers that it comes with. -/
theorem sameFlow_recover (s : Settings) (h : r.SameScript r') :
    (s.recover r).SameFlow (!s.passes.skipBranches) (s.recover r') := by
  obtain ⟨after, hafter, hscript⟩ := (s.recovers_recover r).sameScript
  obtain ⟨after', hafter', hscript'⟩ := (s.recovers_recover r').sameScript
  have hroutine : Option.Rel Routine.SameScript (s.recover r).routine (s.recover r').routine := by
    rw [hafter, hafter']
    exact .some (hscript.symm.trans (h.trans hscript'))
  have hbuild' := h.build_eq (t := s.table)
  cases hbuild : r.build s.table with
  | error f =>
    rw [hbuild] at hbuild'
    refine ⟨?_, hroutine, ?_, ?_, ?_, ?_⟩ <;>
      simp [recover, hbuild, hbuild', Except.map, h.id_eq]
  | ok built =>
    obtain ⟨g, stats⟩ := built
    have hactions : r'.ops.map Operation.action = g.ops.map Operation.action := by
      rw [(spans_of_build hbuild).ops, h.actions]
    obtain ⟨ops, hsame, hops, hagree⟩ := minimize_withOps hbuild hactions s.passes
    rw [hbuild] at hbuild'
    have hgraph : (g.minimize s.table s.passes).graph.SameFlow (!s.passes.skipBranches)
        ((g.minimize s.table s.passes).graph.withOps ops) :=
      sameFlow_withOps hops fun hmarked => hagree (by simpa using hmarked)
    cases hfault : (g.minimize s.table s.passes).fault with
    | some f =>
      refine ⟨?_, hroutine, ?_, ?_, ?_, ?_⟩ <;>
        simp [recover, hbuild, hbuild', Except.map, hsame, hfault, h.id_eq]
    | none =>
      refine ⟨?_, hroutine, ?_, ?_, ?_, ?_⟩ <;>
        simp [recover, hbuild, hbuild', Except.map, hsame, hfault, h.id_eq, Option.Rel.some hgraph]

end Settings

/-! ### Outcomes -/

/-- The same fault, or results with the same statistics and the same entries up to markers, which are the
same at every vertex of every graph if `marked` is set. -/
inductive SameOutcome (marked : Bool) : Except Fault Result → Except Fault Result → Prop
  | error (f : Fault) : SameOutcome marked (.error f) (.error f)
  | ok {a b : Result} (hstats : a.stats = b.stats)
      (hroutines : a.routines.Forall₂ (RoutineResult.SameFlow marked) b.routines) :
      SameOutcome marked (.ok a) (.ok b)

theorem RoutineResult.SameFlow.add_eq {rr rr' : RoutineResult} (h : rr.SameFlow marked rr')
    (stats : RunStats) : stats.add rr = stats.add rr' := by
  have hgraph := h.graph
  unfold RunStats.add graphIfOk?
  rw [h.fault_eq, h.build_eq, h.reduce_eq]
  generalize rr.graph = a at hgraph
  generalize rr'.graph = b at hgraph
  cases hgraph with
  | none => rfl
  | some hsame => cases rr.fault <;> simp only [size, edgeCount, hsame.live_eq, hsame.edges_eq]

theorem RunStats.ofResults_eq_of_forall₂ {rs rs' : List RoutineResult}
    (h : rs.Forall₂ (RoutineResult.SameFlow marked) rs') : ofResults rs = ofResults rs' := by
  refine List.rel_foldl (P := Eq) ?_ rfl h
  rintro stats _ rfl rr rr' hsame
  exact hsame.add_eq stats

theorem Settings.sameOutcome_inTurn (s : Settings) {routines routines' : List Routine}
    (h : routines.Forall₂ Routine.SameScript routines') (c : Bool) :
    SameOutcome (!s.passes.skipBranches) (s.inTurn routines c) (s.inTurn routines' c) := by
  have hraises : routines.findSome? (s.raises c) = routines'.findSome? (s.raises c) := by
    induction h with
    | nil => rfl
    | cons hr _ ih => simp only [List.findSome?_cons, raises, (s.sameFlow_recover hr).fault_eq, ih]
  unfold inTurn
  rw [hraises]
  split
  · exact .error _
  · have hentries : (routines.map s.recover).Forall₂
        (RoutineResult.SameFlow (!s.passes.skipBranches)) (routines'.map s.recover) :=
      List.forall₂_map_left_iff.mpr (List.forall₂_map_right_iff.mpr
        (h.imp fun _ _ => s.sameFlow_recover))
    exact .ok (RunStats.ofResults_eq_of_forall₂ hentries) hentries

/-! ### Histories -/

namespace Options

variable {o : Options} {n : Nat} {routines fresh aged : List Routine} {report : RunReport}

/-- What a run can leave behind, by the schedule that it takes. -/
def Reports (o : Options) (n : Nat) (routines : List Routine) (c : Bool) (report : RunReport) : Prop :=
  match o.settings n with
  | .error f => report = { outcome := .error (invalid f), events := [], routines }
  | .ok s => ∃ ms p, (Pool.start s routines c).follow ms = some p ∧ p.isDone = true ∧
      report = { outcome := p.outcome, events := p.allEvents, routines := p.routinesAfter }

theorem reports_run (o : Options) (n : Nat) (hworkers : 0 < n ∨ o.workers ≠ 0)
    (routines : List Routine) (c : Bool) : o.Reports n routines c (o.run n routines c) := by
  unfold Reports run
  cases hs : o.settings n with
  | error f => rfl
  | ok s =>
    obtain ⟨ms, hms, hdone⟩ := Pool.exists_follow_runInOrder (p := Pool.start s routines c)
      (workers_pos hs hworkers) (Pool.work_start_le s routines c)
    exact ⟨ms, _, hms, hdone, rfl⟩

theorem Reports.sameScript (h : o.Reports n routines c report) :
    routines.Forall₂ Routine.SameScript report.routines := by
  unfold Reports at h
  split at h
  · subst h
    exact List.forall₂_same.mpr fun r _ => .refl r
  · next s hs =>
    obtain ⟨ms, p, hfollow, -, rfl⟩ := h
    have hinv := Pool.inv_follow hfollow
    rw [← hinv.routines_eq]
    refine List.forall₂_map_left_iff.mpr (List.forall₂_map_right_iff.mpr (List.forall₂_same.mpr ?_))
    rintro ⟨r, phase⟩ ht
    have haccounts := hinv.accounts _ ht
    obtain ⟨after, hafter, hscript⟩ := (s.recovers_recover r).sameScript
    cases phase with
    | queued => exact .refl r
    | launched => exact .refl r
    | abandoned => exact .refl r
    | running rr pending =>
      simpa [Phase.result?, haccounts.2, hafter] using hscript
    | finished rr =>
      simpa [Phase.result?, haccounts.2.1, hafter] using hscript

/-- The routines, with those at the positions `picks` replaced. -/
def leave (routines : List Routine) : (picks : List Nat) → (after : List Routine) → List Routine
  | i :: picks, r :: after => leave (routines.set i r) picks after
  | _, _ => routines

/-- What earlier runs can make of routines. An earlier run is given some of them or all, each of them once
and in any order, with any options; it leaves its markers on them and lets the others be. A run that is cut
short leaves what a run on fewer of them does. -/
inductive Ages (fresh : List Routine) : List Routine → Prop
  | fresh : Ages fresh fresh
  | run {aged given : List Routine} {picks : List Nat} {o : Options} {n : Nat} {c : Bool}
      {report : RunReport} (h : Ages fresh aged) (hpicks : picks.Nodup)
      (hgiven : picks.map (aged[·]?) = given.map some) (hreport : o.Reports n given c report) :
      Ages fresh (leave aged picks report.routines)

/-- Entries stay in step where one of them is replaced by one that fits. -/
theorem forall₂_set {α β : Type} {R : α → β → Prop} {l : List α} {l' : List β} {i : Nat} {b : β}
    (h : l.Forall₂ R l') (hi : ∀ a, l[i]? = some a → R a b) : l.Forall₂ R (l'.set i b) := by
  induction h generalizing i with
  | nil => exact .nil
  | cons hhead htail ih =>
    cases i with
    | zero => exact .cons (hi _ rfl) htail
    | succ i => exact .cons hhead (ih fun a ha => hi a ha)

theorem forall₂_leave {picks : List Nat} {after : List Routine}
    (h : fresh.Forall₂ Routine.SameScript aged)
    (hafter : picks.Forall₂ (fun i r' => ∀ r, fresh[i]? = some r → r.SameScript r') after) :
    fresh.Forall₂ Routine.SameScript (leave aged picks after) := by
  induction hafter generalizing aged with
  | nil => exact h
  | cons hhead _ ih => exact ih (forall₂_set h hhead)

/-- Earlier runs change nothing but markers. -/
theorem Ages.sameScript (h : Ages fresh aged) : fresh.Forall₂ Routine.SameScript aged := by
  induction h with
  | fresh => exact List.forall₂_same.mpr fun r _ => .refl r
  | @run aged given picks o n c report _ _ hgiven hreport ih =>
    have hkept : (given.map some).Forall₂ (fun old r' => ∀ r, old = some r → r.SameScript r')
        report.routines :=
      List.forall₂_map_left_iff.mpr (hreport.sameScript.imp fun r r' hsame r₁ hr₁ =>
        Option.some.inj hr₁ ▸ hsame)
    rw [← hgiven, List.forall₂_map_left_iff] at hkept
    refine forall₂_leave ih (hkept.imp ?_)
    intro i r' hi r hr
    obtain ⟨hlt, rfl⟩ := List.getElem?_eq_some_iff.mp hr
    have hlt' : i < aged.length := ih.length_eq ▸ hlt
    exact (ih.get hlt hlt').trans (hi _ (List.getElem?_eq_getElem hlt'))

theorem Reports.outcome_of_single (hs : o.settings n = .ok s) (hworkers : s.workers = 1)
    (h : o.Reports n routines c report) : report.outcome = s.inTurn routines c := by
  rw [Reports, hs] at h
  obtain ⟨ms, p, hfollow, hdone, rfl⟩ := h
  exact Pool.outcome_of_single hworkers hfollow hdone

/-- A run with one worker does not depend on earlier runs: it can be carried out on the routines as they
are by now and as they were at first, and whatever the schedules are, the outcomes are the same, up to
markers only if branches are not structured. -/
theorem run_ignores_history (hworkers : o.workers = 1) (h : Ages fresh aged) (n : Nat) (c : Bool) :
    o.Reports n fresh c (o.run n fresh c) ∧ o.Reports n aged c (o.run n aged c) ∧
      ∀ report report', o.Reports n fresh c report → o.Reports n aged c report' →
        SameOutcome (!o.passes.skipBranches) report.outcome report'.outcome := by
  have hnonzero : 0 < n ∨ o.workers ≠ 0 := Or.inr (by omega)
  refine ⟨o.reports_run n hnonzero fresh c, o.reports_run n hnonzero aged c, ?_⟩
  intro report report' hreport hreport'
  cases hs : o.settings n with
  | error f =>
    rw [Reports, hs] at hreport hreport'
    obtain rfl := hreport
    obtain rfl := hreport'
    exact .error _
  | ok s =>
    obtain ⟨hcount, -, hpasses, -⟩ := settings_eq_ok hs
    have hone : s.workers = 1 := by simp [hcount, hworkers]
    rw [hreport.outcome_of_single hs hone, hreport'.outcome_of_single hs hone, ← hpasses]
    exact s.sameOutcome_inTurn h.sameScript c

/-- The routines after a run that fails at the second of them. -/
def usedRoutines : List Routine :=
  leave mixedRoutines [0, 1, 2] (({ workers := 2 } : Options).run 1 mixedRoutines false).routines

theorem usedRoutines_run_ignores_history :
    Ages mixedRoutines usedRoutines ∧
      usedRoutines.map (fun r => r.ops.map (·.markers.length)) =
        [[0, 0, 1, 0, 0, 0], [1, 0, 1, 0, 0], [0]] ∧
      ({ workers := 1, keepGoing := true } : Options).Reports 1 mixedRoutines false
        (({ workers := 1, keepGoing := true } : Options).run 1 mixedRoutines false) ∧
      ({ workers := 1, keepGoing := true } : Options).Reports 1 usedRoutines false
        (({ workers := 1, keepGoing := true } : Options).run 1 usedRoutines false) ∧
      ∀ report report',
        ({ workers := 1, keepGoing := true } : Options).Reports 1 mixedRoutines false report →
        ({ workers := 1, keepGoing := true } : Options).Reports 1 usedRoutines false report' →
          SameOutcome true report.outcome report'.outcome :=
  have haged : Ages mixedRoutines usedRoutines :=
    .run .fresh (by decide) rfl (reports_run _ 1 (.inl Nat.one_pos) mixedRoutines false)
  ⟨haged, by decide, run_ignores_history rfl haged 1 false⟩

end Options

end FlowRecovery

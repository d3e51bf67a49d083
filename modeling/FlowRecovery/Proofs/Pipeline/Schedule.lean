import FlowRecovery.Proofs.Pipeline.Account

/-! What does not depend on the schedule. A run that keeps going returns, whatever moves are chosen, what
each routine yields alone, in the order in which the routines came; its statistics are sums over the
entries, in any order. A run that does not keep going fails exactly if some routine fails alone, with the
fault of such a routine and never because the run was cancelled; with one worker it is the first of them. -/

namespace FlowRecovery

variable {o : Options} {n : Nat} {s : Settings} {routines : List Routine} {r : Routine}

/-! ### Sums -/

namespace RunStats

/-- The sum of a measure over the entries that succeeded. -/
def total (rs : List RoutineResult) (measure : RoutineResult → Graph → Nat) : Nat :=
  (rs.map fun rr => (rr.graphIfOk?.map (measure rr)).getD 0).sum

def sums (rs : List RoutineResult) : RunStats :=
  { routines := rs.length
    failed := rs.countP (!·.ok)
    vertices := total rs fun _ g => g.size
    edges := total rs fun _ g => g.edgeCount
    loopEdges := total rs fun rr _ => rr.build.loopEdges
    tailEdges := total rs fun rr _ => rr.build.tailEdges
    chainsCollapsed := total rs fun rr _ => rr.reduce.chainsCollapsed
    branches := total rs fun rr _ => rr.reduce.branches.found
    structured := total rs fun rr _ => rr.reduce.branches.structured
    unstructured := total rs fun rr _ => rr.reduce.unstructured
    jumpsRemoved := total rs fun rr _ => rr.reduce.branches.jumpsRemoved }

theorem total_concat (rs : List RoutineResult) (rr : RoutineResult)
    (measure : RoutineResult → Graph → Nat) :
    total (rs ++ [rr]) measure = total rs measure + (rr.graphIfOk?.map (measure rr)).getD 0 := by
  simp [total]

theorem sums_concat (rs : List RoutineResult) (rr : RoutineResult) :
    sums (rs ++ [rr]) = (sums rs).add rr := by
  unfold sums add
  cases hgraph : rr.graphIfOk? with
  | none => simp [total_concat, hgraph, List.countP_append, RoutineResult.ok]
  | some g => simp [total_concat, hgraph, List.countP_append, RoutineResult.ok]

/-- Adding entry after entry comes to the sums. -/
theorem ofResults_eq_sums (rs : List RoutineResult) : ofResults rs = sums rs := by
  induction rs using List.reverseRecOn with
  | nil => rfl
  | append_singleton rs rr ih =>
    rw [sums_concat, ← ih, ofResults, ofResults, List.foldl_append]
    rfl

/-- The order of the entries does not matter. -/
theorem sums_perm {rs rs' : List RoutineResult} (h : rs.Perm rs') : sums rs = sums rs' := by
  have htotal : ∀ measure, total rs measure = total rs' measure := fun measure => (h.map _).sum_nat
  simp only [sums, htotal, h.length_eq, h.countP_eq]

end RunStats

/-! ### Settings -/

namespace Options

theorem settings_eq_ok (h : o.settings n = .ok s) :
    s.workers = (if o.workers = 0 then n else o.workers.toNat) ∧ 0 ≤ o.workers ∧
      s.passes = o.passes ∧ s.keepGoing = o.keepGoing := by
  unfold settings at h
  cases hcheck : Input.checkWorkers o.workers with
  | error f => simp [hcheck, bind, Except.bind] at h
  | ok u =>
    have hnonneg := ((Input.checkWorkers_ok_iff o.workers).mp hcheck).1
    simp only [hcheck, bind, Except.bind] at h
    split at h
    · obtain rfl := Except.ok.inj h
      exact ⟨rfl, hnonneg, rfl, rfl⟩
    · split at h
      · simp at h
      · obtain rfl := Except.ok.inj h
        exact ⟨rfl, hnonneg, rfl, rfl⟩

theorem workers_pos (h : o.settings n = .ok s) (hn : 0 < n ∨ o.workers ≠ 0) : 0 < s.workers := by
  obtain ⟨hworkers, hnonneg, -⟩ := settings_eq_ok h
  rw [hworkers]
  split_ifs <;> omega

theorem recover_eq (h : o.settings n = .ok s) (r : Routine) : (o.recover n r).1 = s.recover r := by
  rw [recover, h]

theorem outcome_run (h : o.settings n = .ok s) (canceled : Bool) :
    (o.run n routines canceled).outcome = (Pool.run s routines canceled).outcome := by
  rw [run, h]

/-- What the routines yield, each of them alone. -/
def alone (o : Options) (n : Nat) (routines : List Routine) : Result :=
  { routines := routines.map fun r => (o.recover n r).1 }

theorem alone_eq (h : o.settings n = .ok s) : o.alone n routines = { routines := routines.map s.recover } := by
  unfold alone
  simp only [recover_eq h]

/-! ### Runs that keep going -/

/-- A run that keeps going and is not cancelled from outside returns what each routine yields alone, under
every schedule: it never gets stuck, comes to its end, and fails never. Each entry has a fault or a graph,
and the statistics are the sums over the entries in any order. -/
theorem run_eq_alone_of_keepGoing (hs : o.settings n = .ok s) (hn : 0 < n) (hkeep : o.keepGoing = true)
    (routines : List Routine) :
    s.Completes routines false (fun p => p.outcome = .ok (o.alone n routines)) ∧
      (o.run n routines false).outcome = .ok (o.alone n routines) ∧
      (∀ rr ∈ (o.alone n routines).routines, rr.fault.isSome = rr.graph.isNone) ∧
      ∀ rs, rs.Perm (o.alone n routines).routines → (o.alone n routines).stats = .sums rs := by
  obtain ⟨-, -, -, hgoing⟩ := settings_eq_ok hs
  have hworkers := workers_pos hs (Or.inl hn)
  have hcompletes : s.Completes routines false (fun p => p.outcome = .ok (o.alone n routines)) := by
    refine Settings.completes_of_ends hworkers ?_
    intro ms p hfollow hdone
    have hinv := Pool.inv_follow hfollow
    have hnone : p.fault = none := by
      refine Option.eq_none_iff_forall_ne_some.mpr ?_
      intro f hf
      rcases hinv.fault_of f hf with ⟨hcanceled, -⟩ | ⟨-, hstops, -⟩
      · exact absurd hcanceled Bool.false_ne_true
      · rw [hgoing, hkeep] at hstops
        exact absurd hstops.symm Bool.false_ne_true
    rw [alone_eq hs]
    exact hinv.outcome_of_fault_eq_none hdone hnone
  refine ⟨hcompletes, ?_, ?_, ?_⟩
  · rw [outcome_run hs]
    exact hcompletes.run hworkers
  · intro rr hrr
    rw [alone_eq hs] at hrr
    obtain ⟨r, -, rfl⟩ := List.mem_map.mp hrr
    exact (s.recovers_recover r).isSome_fault
  · intro rs hperm
    rw [Result.stats, RunStats.ofResults_eq_sums]
    exact RunStats.sums_perm hperm.symm

/-- A loop, a branch that lacks an arm, and a jump to a label that is missing. -/
def mixedRoutines : List Routine :=
  [Routine.waitLoop, Graph.strayBranch,
    { id := 2, ops := [.labelJump { code := { name := "Jump" } } ⟨2, 7⟩] }]

theorem mixedRoutines_run_eq_alone :
    ∃ s, ({ workers := 2, keepGoing := true } : Options).settings 1 = .ok s ∧
      (({ workers := 2, keepGoing := true } : Options).alone 1 mixedRoutines).routines.map
        (·.fault.isSome) = [false, true, true] ∧
      s.Completes mixedRoutines false (fun p =>
        p.outcome = .ok (({ workers := 2, keepGoing := true } : Options).alone 1 mixedRoutines)) ∧
      (({ workers := 2, keepGoing := true } : Options).run 1 mixedRoutines false).outcome =
        .ok (({ workers := 2, keepGoing := true } : Options).alone 1 mixedRoutines) ∧
      (∀ rr ∈ (({ workers := 2, keepGoing := true } : Options).alone 1 mixedRoutines).routines,
        rr.fault.isSome = rr.graph.isNone) ∧
      ∀ rs, rs.Perm (({ workers := 2, keepGoing := true } : Options).alone 1 mixedRoutines).routines →
        (({ workers := 2, keepGoing := true } : Options).alone 1 mixedRoutines).stats = .sums rs :=
  ⟨{ workers := 2, keepGoing := true }, rfl, by decide,
    run_eq_alone_of_keepGoing rfl Nat.one_pos rfl mixedRoutines⟩

/-! ### Runs that stop at a fault -/

/-- The outcome of a run that stops at a fault: it fails if and only if some routine fails alone, and then
with the fault of such a routine, of the first one if there is one worker; otherwise it returns what the
routines yield. -/
structure FailsFast (o : Options) (n workers : Nat) (routines : List Routine)
    (outcome : Except Fault Result) : Prop where
  error_iff : (∃ f, outcome = .error f) ↔ ∃ r ∈ routines, (o.recover n r).1.fault.isSome = true
  error_of : ∀ f, outcome = .error f → f.isCanceled = false ∧
    ∃ r ∈ routines, (o.recover n r).1.fault = some f
  first : workers = 1 → ∀ f, outcome = .error f →
    routines.findSome? (fun r => (o.recover n r).1.fault) = some f
  ok : ∀ result, outcome = .ok result → result = o.alone n routines

theorem failsFast_of_inv {p : Pool} (hs : o.settings n = .ok s) (hkeep : o.keepGoing = false)
    (hinv : Pool.Inv s routines false p) (hdone : p.isDone = true)
    (hsingle : s.workers = 1 → p.outcome = s.inTurn routines false) :
    o.FailsFast n s.workers routines p.outcome := by
  have hgoing : s.keepGoing = false := (settings_eq_ok hs).2.2.2.trans hkeep
  have hown : ∀ f, p.fault = some f → ∃ r ∈ routines, (s.recover r).fault = some f := by
    intro f hf
    rcases hinv.fault_of f hf with ⟨hcanceled, -⟩ | ⟨-, -, hr⟩
    · exact absurd hcanceled Bool.false_ne_true
    · exact hr
  cases hfault : p.fault with
  | some f =>
    have herror : p.outcome = .error f := by rw [Pool.outcome, hfault]
    obtain ⟨r, hr, hrf⟩ := hown f hfault
    rw [herror] at hsingle ⊢
    refine ⟨⟨fun _ => ⟨r, hr, by rw [recover_eq hs, hrf]; rfl⟩, fun _ => ⟨f, rfl⟩⟩, ?_, ?_, ?_⟩
    · intro f' hf'
      obtain rfl := Except.error.inj hf'
      exact ⟨(s.recovers_recover r).not_isCanceled hrf, r, hr, by rw [recover_eq hs, hrf]⟩
    · intro hone f' hf'
      obtain rfl := Except.error.inj hf'
      have hraises : s.raises false = fun r => (o.recover n r).1.fault := by
        funext r
        simp [Settings.raises, hgoing, recover_eq hs]
      have hturn := hsingle hone
      rw [Settings.inTurn, hraises] at hturn
      split at hturn
      · next f' hfind => rw [hfind, Except.error.inj hturn]
      · simp at hturn
    · intro result hresult
      simp at hresult
  | none =>
    have hok := hinv.outcome_of_fault_eq_none hdone hfault
    rw [hok]
    refine ⟨⟨fun h => absurd h (by simp), ?_⟩, by simp, by simp, ?_⟩
    · rintro ⟨r, hr, hsome⟩
      rw [recover_eq hs] at hsome
      rw [← hinv.routines_eq] at hr
      obtain ⟨t, ht, rfl⟩ := List.mem_map.mp hr
      -- a task that failed would have been recorded
      have haccounts := hinv.accounts t ht
      rcases hinv.result_of_isOver hdone ht with hfinished | hrecorded
      · rw [Settings.Accounts, hfinished] at haccounts
        have hrecorded := haccounts.2.2 hgoing hsome
        simp [hfault] at hrecorded
      · simp [hfault] at hrecorded
    · intro result hresult
      rw [alone_eq hs]
      exact (Except.ok.inj hresult).symm

/-- A run that stops at a fault and is not cancelled from outside fails fast under every schedule, and if
it does not fail then no task is without its result. -/
theorem run_failsFast (hs : o.settings n = .ok s) (hn : 0 < n) (hkeep : o.keepGoing = false)
    (routines : List Routine) :
    s.Completes routines false (fun p => o.FailsFast n s.workers routines p.outcome ∧
      (p.fault = none → p.tasks.map (·.phase.result?) =
        routines.map fun r => some (o.recover n r).1)) ∧
      o.FailsFast n s.workers routines (o.run n routines false).outcome := by
  have hworkers := workers_pos hs (Or.inl hn)
  have hcompletes : s.Completes routines false (fun p => o.FailsFast n s.workers routines p.outcome ∧
      (p.fault = none → p.tasks.map (·.phase.result?) =
        routines.map fun r => some (o.recover n r).1)) := by
    refine Settings.completes_of_ends hworkers ?_
    intro ms p hfollow hdone
    have hinv := Pool.inv_follow hfollow
    refine ⟨failsFast_of_inv hs hkeep hinv hdone fun hone =>
      Pool.outcome_of_single hone hfollow hdone, ?_⟩
    intro hnone
    simp only [recover_eq hs]
    exact hinv.map_result? hdone hnone
  refine ⟨hcompletes, ?_⟩
  rw [outcome_run hs]
  exact (hcompletes.run hworkers).1

theorem mixedRoutines_failsFast :
    ∃ s, ({ workers := 1 } : Options).settings 1 = .ok s ∧
      mixedRoutines.findSome? (fun r => (({ workers := 1 } : Options).recover 1 r).1.fault) =
        some (.within "routine 1: minimize" (.coded .ambiguousBranch
          "branch BranchValue -> @label_5 at 3 has 1 out-edges, want 2")) ∧
      s.Completes mixedRoutines false (fun p =>
        ({ workers := 1 } : Options).FailsFast 1 s.workers mixedRoutines p.outcome ∧
        (p.fault = none → p.tasks.map (·.phase.result?) =
          mixedRoutines.map fun r => some (({ workers := 1 } : Options).recover 1 r).1)) ∧
      ({ workers := 1 } : Options).FailsFast 1 s.workers mixedRoutines
        (({ workers := 1 } : Options).run 1 mixedRoutines false).outcome :=
  ⟨{ workers := 1 }, rfl, by decide, run_failsFast rfl Nat.one_pos rfl mixedRoutines⟩

end Options

end FlowRecovery

import FlowRecovery.Pipeline.Event
import FlowRecovery.Pipeline.Options
import FlowRecovery.Proofs.Flow.Outcome
import FlowRecovery.Proofs.Reduce.Markers

/-! What recovering one routine yields. There are three ways to end: the graph cannot be built, it cannot
be structured, or there is a graph; so an entry has a fault or a graph and never both. A fault is about a
label or a branch of the routine, never about a cancelled run, and no more branches are skipped than there
are operations. -/

namespace FlowRecovery

open FlowRecovery.Graph

variable {s : Settings} {r : Routine} {g : Graph} {stats : BuildStats} {t : Table} {f : Fault}

/-! ### What structuring can be faulted for -/

namespace Structuring

theorem arms_eq_error {v : Vertex} (h : arms g v = .error f) : ∃ complaint, f = ambiguous v complaint := by
  unfold arms at h
  split at h
  · simp only at h
    split_ifs at h
    exact ⟨_, (Except.error.inj h).symm⟩
  · exact ⟨_, (Except.error.inj h).symm⟩

theorem fault_branch_eq {s : Structuring} {v : Vertex} (h : (s.branch t v).fault = some f) :
    s.fault = some f ∨ ∃ complaint, f = ambiguous v complaint := by
  cases harms : arms s.graph v with
  | error f' =>
    refine Or.inr ?_
    simp only [branch, harms] at h
    obtain rfl := Option.some.inj h
    exact arms_eq_error harms
  | ok a =>
    refine Or.inl ?_
    obtain ⟨verdict, hsettles⟩ := exists_settles (t := t) harms
    generalize s.branch t v = s' at h hsettles
    cases hsettles with
    | unmet => exact h
    | unlabelled => exact h
    | closed =>
      simp only [close_tally] at h
      exact h

theorem fault_scan_eq (vs : List Int) {s : Structuring} (hs : s.fault = none)
    (h : (scan t vs s).fault = some f) : ∃ v complaint, f = ambiguous v complaint := by
  refine scan_induction (P := fun s => ∀ f, s.fault = some f → ∃ v complaint, f = ambiguous v complaint)
    ?_ vs (fun f hf => ?_) f h
  · intro s v hs f hf
    rcases fault_branch_eq hf with hold | ⟨complaint, hnew⟩
    · exact hs f hold
    · exact ⟨v, complaint, hnew⟩
  · rw [hs] at hf
    simp at hf

end Structuring

theorem Graph.fault_minimize_eq {p : Passes} (h : (g.minimize t p).fault = some f) :
    ∃ v complaint, f = Structuring.ambiguous v complaint := by
  rw [fault_minimize] at h
  split_ifs at h
  unfold structureBranches at h
  simp only at h
  split_ifs at h
  · exact Structuring.fault_scan_eq _ rfl h
  · exact Structuring.fault_scan_eq _ rfl h

theorem Graph.spans_of_build (h : r.build t = .ok (g, stats)) : g.Spans r := by
  rcases Routine.build_eq_ok h with ⟨hops, rfl, -⟩ | ⟨labels, w, hb⟩
  · exact ⟨hops.symm, by rw [hops]; rfl⟩
  · exact hb.spans

theorem Graph.length_live_of_build (h : r.build t = .ok (g, stats)) : g.live.length = r.ops.length := by
  simp [(spans_of_build h).live]

/-- A branch is skipped at most once. -/
theorem Graph.length_skipped_minimize_le {p : Passes} (h : r.build t = .ok (g, stats))
    (hfault : (g.minimize t p).fault = none) :
    (g.minimize t p).stats.branches.skipped.length ≤ r.ops.length := by
  obtain ⟨land, hfirst⟩ := exists_firstPass h p
  rw [stats_minimize]
  rw [fault_minimize] at hfault
  split_ifs at hfault ⊢
  · exact Nat.zero_le _
  · obtain ⟨log, s, hscan, heq⟩ := exists_scans hfault
    have htotal := (hscan.noted hfirst.wellFormed).total
    have hbranches := congrArg List.length (hscan.vertices (.start hfirst.wellFormed))
    rw [List.length_map] at hbranches
    have hfew : (g.collapsed t p).live.length ≤ g.live.length :=
      (hfirst.wellFormed.live_nodup.subperm hfirst.within.live).length_le
    have hfilter := List.length_filter_le ((g.collapsed t p).isBranch t) (g.collapsed t p).live
    rw [length_live_of_build h] at hfew
    rw [heq]
    simp only at htotal ⊢
    omega

/-! ### Three ways to end -/

namespace Settings

/-- A fault of the routine with the stage that it arose in. -/
def staged (r : Routine) (stage : String) (f : Fault) : Fault :=
  .within ("routine " ++ toString r.id ++ ": " ++ stage) f

/-- How recovering a routine ends. -/
inductive Recovers (s : Settings) (r : Routine) : RoutineResult → Prop
  | unbuilt {f : Fault} (hbuild : r.build s.table = .error f) :
      Recovers s r { id := r.id, routine := some r, fault := some (staged r "build" f) }
  | unstructured {g : Graph} {build : BuildStats} {f : Fault}
      (hbuild : r.build s.table = .ok (g, build))
      (hfault : (g.minimize s.table s.passes).fault = some f) :
      Recovers s r
        { id := r.id
          routine := some { r with ops := (g.minimize s.table s.passes).graph.ops }
          build, fault := some (staged r "minimize" f) }
  | ok {g : Graph} {build : BuildStats} (hbuild : r.build s.table = .ok (g, build))
      (hfault : (g.minimize s.table s.passes).fault = none) :
      Recovers s r
        { id := r.id
          routine := some { r with ops := (g.minimize s.table s.passes).graph.ops }
          graph := some (g.minimize s.table s.passes).graph, build
          reduce := (g.minimize s.table s.passes).stats }

theorem recovers_recover (s : Settings) (r : Routine) : s.Recovers r (s.recover r) := by
  unfold recover
  simp only
  split
  · next f hbuild => exact .unbuilt hbuild
  · next g build hbuild =>
    split
    · next f hfault => exact .unstructured hbuild hfault
    · next hfault => exact .ok hbuild hfault

namespace Recovers

variable {rr : RoutineResult} (h : s.Recovers r rr)

include h

/-- An entry has a fault or a graph. -/
theorem isSome_fault : rr.fault.isSome = rr.graph.isNone := by
  cases h <;> rfl

theorem not_isCanceled (hf : rr.fault = some f) : f.isCanceled = false := by
  cases h with
  | unbuilt hbuild =>
    obtain rfl := Option.some.inj hf
    obtain ⟨code, message, rfl, -⟩ := Routine.code?_of_build_eq_error hbuild
    rfl
  | unstructured hbuild hfault =>
    obtain rfl := Option.some.inj hf
    obtain ⟨v, complaint, rfl⟩ := Graph.fault_minimize_eq hfault
    rfl
  | ok hbuild hfault => simp at hf

theorem length_skipped_le : rr.reduce.branches.skipped.length ≤ r.ops.length := by
  cases h with
  | unbuilt => exact Nat.zero_le _
  | unstructured => exact Nat.zero_le _
  | ok hbuild hfault => exact Graph.length_skipped_minimize_le hbuild hfault

end Recovers

end Settings

end FlowRecovery

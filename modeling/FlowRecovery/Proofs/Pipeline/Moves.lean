import FlowRecovery.Pipeline.Pool
import FlowRecovery.Proofs.Pipeline.Recover
import Mathlib.Algebra.GroupWithZero.Nat
import Mathlib.Algebra.Order.BigOperators.Group.List
import Mathlib.Algebra.Order.Group.Nat

/-! What the moves of a pool do. A launch takes the first routine that is queued, and a turn brings one
routine on the way one step further; both change one task and nothing about the others. Every move uses up
some of the work that is left, and while there is work some move is possible. So every schedule is finite,
none is stuck before all tasks are over, and the schedule that takes one routine after the other runs to
its end. -/

namespace FlowRecovery

variable {p p' : Pool} {r : Routine}

theorem Phase.isQueued_iff {a : Phase} : a.isQueued = true ↔ a = .queued := by
  cases a <;> simp [isQueued]

namespace Pool

/-! ### One move -/

/-- What a turn does to a task of the routine `r`: its phase before and after, what is reported, and the
fault that is raised. -/
inductive Turn (p : Pool) (r : Routine) : Phase → Phase → List Event → Option Fault → Prop
  | abandon (hcanceled : p.canceled = true) : Turn p r .launched .abandoned [] (some .canceled)
  | start (hcanceled : p.canceled = false) :
      Turn p r .launched (.running (p.settings.recover r) (Event.rest r (p.settings.recover r)))
        [Event.start r] none
  | report {rr : RoutineResult} {e : Event} {pending : List Event} :
      Turn p r (.running rr (e :: pending)) (.running rr pending) [e] none
  | finish {rr : RoutineResult} :
      Turn p r (.running rr []) (.finished rr) [] (if p.settings.keepGoing then none else rr.fault)

/-- The pool after a turn that reports `es` and raises `raised`. -/
def turned (p : Pool) (tasks : List Task) (es : List Event) (raised : Option Fault) : Pool :=
  { p with
    tasks
    events := p.events ++ es
    fault := p.fault.or raised
    canceled := p.canceled || raised.isSome }

/-- What a move can do: launch the first queued task, or give a task its turn. -/
inductive Next (p : Pool) : Pool → Prop
  | launch {before after : List Task} {r : Routine} (hfree : p.active < p.settings.workers)
      (htasks : p.tasks = before ++ ⟨r, .queued⟩ :: after)
      (hbefore : ∀ t ∈ before, t.phase.isQueued = false) :
      Next p { p with tasks := before ++ ⟨r, .launched⟩ :: after }
  | turn {before after : List Task} {r : Routine} {a b : Phase} {es : List Event}
      {raised : Option Fault} (htasks : p.tasks = before ++ ⟨r, a⟩ :: after)
      (hturn : Turn p r a b es raised) : Next p (p.turned (before ++ ⟨r, b⟩ :: after) es raised)

theorem modify_of_eq_append {i : Nat} {t : Task} (h : p.tasks[i]? = some t) :
    ∃ before after, p.tasks = before ++ t :: after ∧ before = p.tasks.take i ∧
      ∀ f : Task → Task, p.tasks.modify i f = before ++ f t :: after := by
  obtain ⟨hlt, hget⟩ := List.getElem?_eq_some_iff.mp h
  refine ⟨p.tasks.take i, p.tasks.drop (i + 1), ?_, rfl, ?_⟩
  · rw [← hget, List.getElem_cons_drop, List.take_append_drop]
  · intro f
    rw [List.modify_eq_take_cons_drop hlt, hget]

/-- What an advance does: the task at `i` takes its turn. -/
theorem turn_of_advance {i : Nat} (h : p.advance i = some p') :
    ∃ before after r a b es raised, before.length = i ∧ p.tasks = before ++ ⟨r, a⟩ :: after ∧
      Turn p r a b es raised ∧ p' = p.turned (before ++ ⟨r, b⟩ :: after) es raised := by
  unfold advance at h
  split at h
  · simp at h
  · next task htask =>
    obtain ⟨r, phase⟩ := task
    obtain ⟨before, after, htasks, hbefore, hmodify⟩ := modify_of_eq_append htask
    have hlength : before.length = i := by
      rw [hbefore, List.length_take]
      exact Nat.min_eq_left (List.getElem?_eq_some_iff.mp htask).1.le
    simp only at h
    split at h
    · split_ifs at h with hcanceled
      · obtain rfl := Option.some.inj h
        refine ⟨before, after, r, _, _, _, _, hlength, htasks, .abandon hcanceled, ?_⟩
        simp [turned, fail, setPhase, hmodify]
      · obtain rfl := Option.some.inj h
        refine ⟨before, after, r, _, _, _, _, hlength, htasks, .start (by simpa using hcanceled), ?_⟩
        simp [turned, setPhase, hmodify]
    · obtain rfl := Option.some.inj h
      refine ⟨before, after, r, _, _, _, _, hlength, htasks, .report, ?_⟩
      simp [turned, setPhase, hmodify]
    · next rr =>
      refine ⟨before, after, r, _, _, _, _, hlength, htasks, .finish, ?_⟩
      cases hfault : rr.fault with
      | none =>
        simp only [hfault] at h
        obtain rfl := Option.some.inj h
        simp [turned, setPhase, hmodify]
      | some f =>
        simp only [hfault] at h
        obtain rfl := Option.some.inj h
        cases hkeep : p.settings.keepGoing with
        | true => simp [turned, setPhase, hmodify, hkeep]
        | false => simp [turned, fail, setPhase, hmodify, hkeep]
    · simp at h

theorem next_of_advance {i : Nat} (h : p.advance i = some p') : Next p p' := by
  obtain ⟨before, after, r, a, b, es, raised, -, htasks, hturn, rfl⟩ := turn_of_advance h
  exact .turn htasks hturn

theorem next_of_step {m : Move} (h : p.step m = some p') : Next p p' := by
  cases m with
  | advance i => exact next_of_advance h
  | launch =>
    simp only [step] at h
    split_ifs at h with hfree
    obtain ⟨i, hi, rfl⟩ := Option.map_eq_some_iff.mp h
    obtain ⟨hlt, hqueued, hfirst⟩ := List.findIdx?_eq_some_iff_getElem.mp hi
    obtain ⟨before, after, htasks, hbefore, hmodify⟩ :=
      modify_of_eq_append (List.getElem?_eq_getElem hlt)
    generalize p.tasks[i] = task at hqueued htasks hmodify
    obtain ⟨r, phase⟩ := task
    obtain rfl := Phase.isQueued_iff.mp hqueued
    have hlaunch : Next p _ := .launch hfree htasks ?_
    · simpa [setPhase, hmodify] using hlaunch
    · intro t ht
      rw [hbefore] at ht
      obtain ⟨j, hj, rfl⟩ := List.mem_take_iff_getElem.mp ht
      simpa using hfirst j (by omega)

/-- What every move keeps, a schedule keeps. -/
theorem follow_induction {P : Pool → Prop} (hnext : ∀ p p', P p → Next p p' → P p') {ms : List Move}
    (hp : P p) (h : p.follow ms = some p') : P p' := by
  induction ms generalizing p with
  | nil =>
    obtain rfl := Option.some.inj h
    exact hp
  | cons m ms ih =>
    obtain ⟨q, hstep, hrest⟩ := Option.bind_eq_some_iff.mp h
    exact ih (hnext p q hp (next_of_step hstep)) hrest

/-! ### Work -/

end Pool

/-- Over: neither queued nor on the way. -/
def Phase.isOver (a : Phase) : Bool := !a.isQueued && !a.isActive

/-- The moves that a task still takes if it is not abandoned. -/
def Settings.workOf (s : Settings) (t : Task) : Nat :=
  match t.phase with
  | .queued => (Event.rest t.routine (s.recover t.routine)).length + 3
  | .launched => (Event.rest t.routine (s.recover t.routine)).length + 2
  | .running _ pending => pending.length + 1
  | .finished _ | .abandoned => 0

namespace Pool

def work (p : Pool) : Nat := (p.tasks.map p.settings.workOf).sum

theorem Turn.workOf_lt {a b : Phase} {es : List Event} {raised : Option Fault}
    (h : Turn p r a b es raised) : p.settings.workOf ⟨r, b⟩ < p.settings.workOf ⟨r, a⟩ := by
  cases h <;> simp [Settings.workOf]

theorem Next.settings_eq (h : Next p p') : p'.settings = p.settings := by
  cases h <;> rfl

theorem Next.work_lt (h : Next p p') : p'.work < p.work := by
  cases h with
  | @launch before after r hfree htasks hbefore =>
    simp only [work, htasks, List.map_append, List.map_cons, List.sum_append, List.sum_cons,
      Settings.workOf]
    omega
  | turn htasks hturn =>
    have hlt := hturn.workOf_lt
    simp only [work, turned, htasks, List.map_append, List.map_cons, List.sum_append, List.sum_cons]
    omega

/-- A schedule is not longer than the work that it does. -/
theorem length_le_of_follow {ms : List Move} (h : p.follow ms = some p') :
    ms.length + p'.work ≤ p.work := by
  induction ms generalizing p with
  | nil =>
    obtain rfl := Option.some.inj h
    simp
  | cons m ms ih =>
    obtain ⟨q, hstep, hrest⟩ := Option.bind_eq_some_iff.mp h
    have hlt := (next_of_step hstep).work_lt
    have hle := ih hrest
    rw [List.length_cons]
    omega

/-! ### Going on -/

theorem isDone_iff : p.isDone = true ↔ ∀ t ∈ p.tasks, t.phase.isOver = true :=
  List.all_eq_true

theorem isSome_advance {i : Nat} {t : Task} (hi : p.tasks[i]? = some t)
    (hactive : t.phase.isActive = true) : (p.advance i).isSome = true := by
  obtain ⟨r, phase⟩ := t
  unfold advance
  simp only [hi]
  cases phase with
  | queued => simp [Phase.isActive] at hactive
  | finished rr => simp [Phase.isActive] at hactive
  | abandoned => simp [Phase.isActive] at hactive
  | launched => cases p.canceled <;> rfl
  | running rr pending =>
    cases pending with
    | cons e pending => rfl
    | nil => cases hfault : rr.fault <;> simp [hfault]

/-- While a task is not over, the first one on the way can go on or another can be launched. -/
theorem isSome_step_inOrder (hworkers : 0 < p.settings.workers) (h : p.isDone = false) :
    (p.step p.inOrder).isSome = true := by
  unfold inOrder
  cases hfind : p.tasks.findIdx? (·.phase.isActive) with
  | some i =>
    obtain ⟨hlt, hactive, -⟩ := List.findIdx?_eq_some_iff_getElem.mp hfind
    exact isSome_advance (List.getElem?_eq_getElem hlt) hactive
  | none =>
    have hidle := List.findIdx?_eq_none_iff.mp hfind
    have hfree : p.active = 0 := by
      unfold active
      rw [List.countP_eq_zero]
      intro t ht
      simp [hidle t ht]
    have hqueued : ∃ t ∈ p.tasks, t.phase.isQueued = true := by
      by_contra hnone
      refine Bool.eq_false_iff.mp h (isDone_iff.mpr ?_)
      intro t ht
      have hnot : t.phase.isQueued = false := Bool.eq_false_iff.mpr fun hq => hnone ⟨t, ht, hq⟩
      simp [Phase.isOver, hnot, hidle t ht]
    simp only [step, hfree, hworkers, if_true, Option.isSome_map, List.findIdx?_isSome]
    simpa using hqueued

theorem step_inOrder_eq_none (h : p.isDone = true) : p.step p.inOrder = none := by
  have hover := isDone_iff.mp h
  have hactive : p.tasks.findIdx? (·.phase.isActive) = none := by
    rw [List.findIdx?_eq_none_iff]
    intro t ht
    simpa [Phase.isOver] using (Bool.and_eq_true_iff.mp (hover t ht)).2
  have hqueued : p.tasks.findIdx? (·.phase.isQueued) = none := by
    rw [List.findIdx?_eq_none_iff]
    intro t ht
    simpa [Phase.isOver] using (Bool.and_eq_true_iff.mp (hover t ht)).1
  simp [inOrder, hactive, step, hqueued]

/-- With a budget for the work that is left, one routine after the other is brought to its end. -/
theorem exists_follow_runInOrder {fuel : Nat} (hworkers : 0 < p.settings.workers)
    (hfuel : p.work ≤ fuel) :
    ∃ ms, p.follow ms = some (runInOrder fuel p) ∧ (runInOrder fuel p).isDone = true := by
  induction fuel generalizing p with
  | zero =>
    refine ⟨[], rfl, ?_⟩
    by_contra hleft
    obtain ⟨q, hq⟩ := Option.isSome_iff_exists.mp
      (isSome_step_inOrder hworkers (Bool.eq_false_iff.mpr hleft))
    have hlt := (next_of_step hq).work_lt
    omega
  | succ fuel ih =>
    unfold runInOrder
    cases hdone : p.isDone with
    | true =>
      rw [step_inOrder_eq_none hdone]
      exact ⟨[], rfl, hdone⟩
    | false =>
      obtain ⟨q, hq⟩ := Option.isSome_iff_exists.mp (isSome_step_inOrder hworkers hdone)
      have hnext := next_of_step hq
      have hlt := hnext.work_lt
      obtain ⟨ms, hms, hend⟩ := ih (hnext.settings_eq ▸ hworkers) (by omega)
      refine ⟨p.inOrder :: ms, ?_, ?_⟩
      · rw [follow, hq]
        exact hms
      · rw [hq]
        exact hend

/-! ### Whole runs -/

theorem fuel_eq_sum (p : Pool) : p.fuel = (p.tasks.map fun t => t.routine.ops.length + 4).sum := by
  rw [fuel, List.sum_eq_foldl, List.foldl_map]

/-- The budget of a run covers its work. -/
theorem work_start_le (s : Settings) (routines : List Routine) (canceled : Bool) :
    (start s routines canceled).work ≤ (start s routines canceled).fuel := by
  rw [fuel_eq_sum]
  refine List.sum_le_sum fun t ht => ?_
  obtain ⟨r, -, rfl⟩ := List.mem_map.mp ht
  have hfew := (s.recovers_recover r).length_skipped_le
  simp only [start, Settings.workOf, Event.rest, List.length_append, List.length_map,
    List.length_singleton]
  omega

end Pool

namespace Settings

variable {s : Settings} {routines : List Routine} {canceled : Bool} {P : Pool → Prop}

/-- Whatever moves are chosen, the run goes on until all tasks are over and gets there within the budget,
and then the pool satisfies `P`. -/
structure Completes (s : Settings) (routines : List Routine) (canceled : Bool) (P : Pool → Prop) :
    Prop where
  bounded : ∀ ms p, (Pool.start s routines canceled).follow ms = some p →
    ms.length ≤ (Pool.start s routines canceled).fuel
  onward : ∀ ms p, (Pool.start s routines canceled).follow ms = some p → p.isDone = false →
    ∃ m, (p.step m).isSome = true
  ends : ∀ ms p, (Pool.start s routines canceled).follow ms = some p → p.isDone = true → P p

/-- What holds of every pool at its end is all that there is to show. -/
theorem completes_of_ends (hworkers : 0 < s.workers)
    (hends : ∀ ms p, (Pool.start s routines canceled).follow ms = some p → p.isDone = true → P p) :
    s.Completes routines canceled P where
  bounded ms p h := by
    have hle := Pool.length_le_of_follow h
    have hfuel := Pool.work_start_le s routines canceled
    omega
  onward ms p h hleft := by
    have hsettings : p.settings = s :=
      Pool.follow_induction (P := fun p => p.settings = s) (fun _ _ hp hnext => hnext.settings_eq.trans hp)
        rfl h
    exact ⟨p.inOrder, Pool.isSome_step_inOrder (hsettings ▸ hworkers) hleft⟩
  ends := hends

/-- The run that takes one routine after the other is one of them. -/
theorem Completes.run (h : s.Completes routines canceled P) (hworkers : 0 < s.workers) :
    P (Pool.run s routines canceled) := by
  obtain ⟨ms, hms, hdone⟩ := Pool.exists_follow_runInOrder (p := Pool.start s routines canceled) hworkers
    (Pool.work_start_le s routines canceled)
  exact h.ends ms _ hms hdone

end Settings

end FlowRecovery

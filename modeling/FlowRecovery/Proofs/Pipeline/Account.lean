import FlowRecovery.Proofs.Pipeline.Moves

/-! What a pool holds at any moment. Every result is what the routine yields by itself; a run is cancelled
if it was from the start or a fault has been recorded; a fault that is recorded is that of a routine of the
run, unless the run was cancelled from the start; and a task is abandoned only in a run that has a fault.
So once all tasks are over, a run without a fault has the result of every routine. With one worker tasks are
over in the order in which the routines came, and the fault is the first that any of them raises. -/

namespace FlowRecovery

variable {s : Settings} {routines : List Routine} {c : Bool} {p p' : Pool}

/-! ### Every schedule -/

/-- What the phase of a task says of a run that has recorded `fault` and was cancelled from the start if
`c` is set. -/
def Settings.Accounts (s : Settings) (c : Bool) (fault : Option Fault) (t : Task) : Prop :=
  match t.phase with
  | .queued | .launched => True
  | .running rr _ => c = false ∧ rr = s.recover t.routine
  | .finished rr => c = false ∧ rr = s.recover t.routine ∧
      (s.keepGoing = false → rr.fault.isSome = true → fault.isSome = true)
  | .abandoned => fault.isSome = true

theorem Settings.Accounts.or {fault : Option Fault} {t : Task} (h : s.Accounts c fault t)
    (raised : Option Fault) : s.Accounts c (fault.or raised) t := by
  have hmono : fault.isSome = true → (fault.or raised).isSome = true := by
    intro hsome
    rw [Option.isSome_or, hsome, Bool.true_or]
  obtain ⟨r, phase⟩ := t
  cases phase with
  | queued => trivial
  | launched => trivial
  | running rr pending => exact h
  | finished rr => exact ⟨h.1, h.2.1, fun hkeep hfault => hmono (h.2.2 hkeep hfault)⟩
  | abandoned => exact hmono h

namespace Pool

structure Inv (s : Settings) (routines : List Routine) (c : Bool) (p : Pool) : Prop where
  settings_eq : p.settings = s
  routines_eq : p.tasks.map Task.routine = routines
  accounts : ∀ t ∈ p.tasks, s.Accounts c p.fault t
  canceled_eq : p.canceled = (c || p.fault.isSome)
  fault_of : ∀ f, p.fault = some f → c = true ∧ f = .canceled ∨
    c = false ∧ s.keepGoing = false ∧ ∃ r ∈ routines, (s.recover r).fault = some f

theorem inv_start (s : Settings) (routines : List Routine) (c : Bool) :
    Inv s routines c (start s routines c) where
  settings_eq := rfl
  routines_eq := by simp [start, Function.comp_def]
  accounts := by
    intro t ht
    obtain ⟨r, -, rfl⟩ := List.mem_map.mp ht
    trivial
  canceled_eq := (Bool.or_false c).symm
  fault_of := by simp [start]

/-- What a turn raises, where nothing has been recorded yet. -/
theorem Inv.of_turn {r : Routine} {a b : Phase} {es : List Event} {raised : Option Fault}
    (h : Inv s routines c p) (ha : s.Accounts c p.fault ⟨r, a⟩) (hturn : Turn p r a b es raised) :
    s.Accounts c (p.fault.or raised) ⟨r, b⟩ ∧
      ∀ f, p.fault.or raised = some f → p.fault = some f ∨ c = true ∧ f = .canceled ∨
        c = false ∧ s.keepGoing = false ∧ (s.recover r).fault = some f := by
  have hcanceled := h.canceled_eq
  cases hturn with
  | abandon hset =>
    refine ⟨by simp [Settings.Accounts], ?_⟩
    intro f hf
    rw [hset] at hcanceled
    cases hfault : p.fault with
    | some f' =>
      rw [hfault, Option.some_or] at hf
      exact Or.inl hf
    | none =>
      rw [hfault, Option.none_or] at hf
      rw [hfault, Option.isSome_none, Bool.or_false] at hcanceled
      exact Or.inr (Or.inl ⟨hcanceled.symm, (Option.some.inj hf).symm⟩)
  | start hset =>
    rw [hset, eq_comm, Bool.or_eq_false_iff] at hcanceled
    refine ⟨⟨hcanceled.1, by rw [h.settings_eq]⟩, ?_⟩
    intro f hf
    rw [Option.or_none] at hf
    exact Or.inl hf
  | report =>
    refine ⟨ha, ?_⟩
    intro f hf
    rw [Option.or_none] at hf
    exact Or.inl hf
  | @finish rr =>
    obtain ⟨hc, hrr⟩ : c = false ∧ rr = s.recover r := ha
    obtain rfl := hrr
    rw [h.settings_eq]
    refine ⟨⟨hc, rfl, ?_⟩, ?_⟩
    · intro hkeep hsome
      rw [hkeep, Option.isSome_or]
      simp [hsome]
    · intro f hf
      rcases Option.or_eq_some_iff.mp hf with hold | ⟨-, hnew⟩
      · exact Or.inl hold
      · split_ifs at hnew with hkeep
        exact Or.inr (Or.inr ⟨hc, by simpa using hkeep, hnew⟩)

theorem Inv.next (h : Inv s routines c p) (hnext : Next p p') : Inv s routines c p' := by
  cases hnext with
  | @launch before after r hfree htasks hbefore =>
    have hroutines := h.routines_eq
    have haccounts := h.accounts
    rw [htasks] at hroutines haccounts
    refine ⟨h.settings_eq, by simpa using hroutines, ?_, h.canceled_eq, h.fault_of⟩
    intro t ht
    rw [List.mem_append, List.mem_cons] at ht
    rcases ht with ht | rfl | ht
    · exact haccounts t (List.mem_append_left _ ht)
    · trivial
    · exact haccounts t (List.mem_append_right _ (List.mem_cons_of_mem _ ht))
  | @turn before after r a b es raised htasks hturn =>
    have hroutines := h.routines_eq
    have haccounts := h.accounts
    rw [htasks] at hroutines haccounts
    obtain ⟨hb, hraised⟩ := h.of_turn (haccounts ⟨r, a⟩ (by simp)) hturn
    refine ⟨h.settings_eq, by simpa [turned] using hroutines, ?_, ?_, ?_⟩
    · intro t ht
      simp only [turned, List.mem_append, List.mem_cons] at ht
      rcases ht with ht | rfl | ht
      · exact (haccounts t (List.mem_append_left _ ht)).or raised
      · exact hb
      · exact (haccounts t (List.mem_append_right _ (List.mem_cons_of_mem _ ht))).or raised
    · simp only [turned, h.canceled_eq, Option.isSome_or, Bool.or_assoc]
    · intro f hf
      rcases hraised f hf with hold | hcanceled | ⟨hc, hkeep, hown⟩
      · exact h.fault_of f hold
      · exact Or.inl hcanceled
      · refine Or.inr ⟨hc, hkeep, r, ?_, hown⟩
        rw [← hroutines]
        simp

theorem inv_follow {ms : List Move} (h : (start s routines c).follow ms = some p) : Inv s routines c p :=
  follow_induction (fun _ _ hp hnext => hp.next hnext) (inv_start s routines c) h

namespace Inv

variable (h : Inv s routines c p) (hdone : p.isDone = true)

include h hdone

/-- A task that is over has the result of its routine, or the run has a fault. -/
theorem result_of_isOver {t : Task} (ht : t ∈ p.tasks) :
    t.phase = .finished (s.recover t.routine) ∨ p.fault.isSome = true := by
  have hover := isDone_iff.mp hdone t ht
  have haccounts := h.accounts t ht
  obtain ⟨r, phase⟩ := t
  cases phase with
  | queued => simp [Phase.isOver, Phase.isQueued] at hover
  | launched => simp [Phase.isOver, Phase.isActive] at hover
  | running rr pending => simp [Phase.isOver, Phase.isActive] at hover
  | finished rr => exact Or.inl (by rw [haccounts.2.1])
  | abandoned => exact Or.inr haccounts

/-- A run without a fault has a result for every routine. -/
theorem map_result? (hnone : p.fault = none) :
    p.tasks.map (·.phase.result?) = routines.map fun r => some (s.recover r) := by
  rw [← h.routines_eq, List.map_map]
  refine List.map_congr_left ?_
  intro t ht
  rcases h.result_of_isOver hdone ht with hfinished | hsome
  · rw [hfinished]
    rfl
  · simp [hnone] at hsome

theorem outcome_of_fault_eq_none (hnone : p.fault = none) :
    p.outcome = .ok { routines := routines.map s.recover } := by
  have hresults : p.tasks.filterMap (·.phase.result?) = routines.map s.recover := by
    have hmap := congrArg (List.filterMap id) (h.map_result? hdone hnone)
    simpa [List.filterMap_map, Function.comp_def] using hmap
  rw [outcome, hnone, hresults]

end Inv

/-! ### One worker -/

end Pool

/-- The fault that a routine raises in a run, which counts if no other has been recorded. -/
def Settings.raises (s : Settings) (c : Bool) (r : Routine) : Option Fault :=
  if c then some .canceled else if s.keepGoing then none else (s.recover r).fault

/-- What a run returns that takes one routine after the other. -/
def Settings.inTurn (s : Settings) (routines : List Routine) (c : Bool) : Except Fault Result :=
  match routines.findSome? (s.raises c) with
  | some f => .error f
  | none => .ok { routines := routines.map s.recover }

namespace Pool

/-- What a task has raised. -/
def raisedBy (s : Settings) (c : Bool) (t : Task) : Option Fault :=
  if t.phase.isOver then s.raises c t.routine else none

/-- Tasks are over in their order, and the fault is the first that one of them has raised. -/
structure InTurn (s : Settings) (c : Bool) (p : Pool) : Prop where
  order : p.tasks.Pairwise fun a b => a.phase.isOver = true ∨ b.phase = .queued
  fault : p.fault = p.tasks.findSome? (raisedBy s c)

theorem inTurn_start (s : Settings) (routines : List Routine) (c : Bool) :
    InTurn s c (start s routines c) where
  order := List.pairwise_map.mpr (List.pairwise_of_forall fun _ _ => Or.inr rfl)
  fault := by
    refine (List.findSome?_eq_none_iff.mpr ?_).symm
    intro t ht
    obtain ⟨r, -, rfl⟩ := List.mem_map.mp ht
    rfl

theorem Turn.not_isOver {r : Routine} {a b : Phase} {es : List Event} {raised : Option Fault}
    (h : Turn p r a b es raised) : a.isOver = false ∧ a ≠ .queued := by
  cases h <;> simp [Phase.isOver, Phase.isActive]

/-- A turn adds what its task raises to what those before it have raised. -/
theorem Inv.or_raisedBy {r : Routine} {a b : Phase} {es : List Event} {raised : Option Fault}
    (h : Inv s routines c p) (ha : s.Accounts c p.fault ⟨r, a⟩) (hturn : Turn p r a b es raised) :
    p.fault.or raised = p.fault.or (raisedBy s c ⟨r, b⟩) := by
  cases hturn with
  | abandon hset =>
    have hcanceled := h.canceled_eq
    rw [hset] at hcanceled
    cases hfault : p.fault with
    | some f => rw [Option.some_or, Option.some_or]
    | none =>
      rw [hfault, Option.isSome_none, Bool.or_false] at hcanceled
      simp [raisedBy, Settings.raises, ← hcanceled, Phase.isOver, Phase.isQueued, Phase.isActive]
  | start hset => rfl
  | report => rfl
  | @finish rr =>
    obtain ⟨hc, hrr⟩ : c = false ∧ rr = s.recover r := ha
    simp [raisedBy, Settings.raises, hc, ← hrr, h.settings_eq, Phase.isOver, Phase.isQueued,
      Phase.isActive]

theorem InTurn.next (h : InTurn s c p) (hinv : Inv s routines c p) (hworkers : s.workers = 1)
    (hnext : Next p p') : InTurn s c p' := by
  have horder := h.order
  have hfault := h.fault
  cases hnext with
  | @launch before after r hfree htasks hbefore =>
    rw [htasks, List.pairwise_append, List.pairwise_cons] at horder
    rw [htasks] at hfault
    obtain ⟨hfirst, ⟨hlater, hlast⟩, hacross⟩ := horder
    have hidle : ∀ t ∈ before, t.phase.isOver = true := by
      intro t ht
      have hnone : p.tasks.countP (·.phase.isActive) = 0 := by
        rw [hinv.settings_eq, hworkers] at hfree
        exact Nat.lt_one_iff.mp hfree
      rw [htasks, List.countP_eq_zero] at hnone
      have hinactive := hnone t (List.mem_append_left _ ht)
      simp [Phase.isOver, hbefore t ht, hinactive]
    refine ⟨?_, ?_⟩
    · rw [List.pairwise_append, List.pairwise_cons]
      refine ⟨hfirst, ⟨?_, hlast⟩, fun t ht _ _ => Or.inl (hidle t ht)⟩
      intro t ht
      exact (hlater t ht).imp_left fun hover => absurd hover (by simp [Phase.isOver, Phase.isQueued])
    · simpa [List.findSome?_append, List.findSome?_cons, raisedBy, Phase.isOver, Phase.isQueued,
        Phase.isActive] using hfault
  | @turn before after r a b es raised htasks hturn =>
    obtain ⟨hnot, hnotQueued⟩ := hturn.not_isOver
    have ha := hinv.accounts ⟨r, a⟩ (by simp [htasks])
    rw [htasks, List.pairwise_append, List.pairwise_cons] at horder
    rw [htasks] at hfault
    obtain ⟨hfirst, ⟨hlater, hlast⟩, hacross⟩ := horder
    have hwaiting : ∀ t ∈ after, t.phase = .queued := by
      intro t ht
      exact (hlater t ht).resolve_left (by simp [hnot])
    have hbefore : ∀ t ∈ before, t.phase.isOver = true := by
      intro t ht
      exact (hacross t ht ⟨r, a⟩ (List.mem_cons_self ..)).resolve_right hnotQueued
    have hnone : after.findSome? (raisedBy s c) = none := by
      refine List.findSome?_eq_none_iff.mpr ?_
      intro t ht
      simp [raisedBy, Phase.isOver, Phase.isQueued, hwaiting t ht]
    refine ⟨?_, ?_⟩
    · simp only [turned]
      rw [List.pairwise_append, List.pairwise_cons]
      exact ⟨hfirst, ⟨fun t ht => Or.inr (hwaiting t ht), hlast⟩, fun t ht _ _ => Or.inl (hbefore t ht)⟩
    · have hsofar : p.fault = before.findSome? (raisedBy s c) := by
        rw [hfault, List.findSome?_append, List.findSome?_cons, hnone]
        simp [raisedBy, hnot]
      simp only [turned]
      rw [hinv.or_raisedBy ha hturn, List.findSome?_append, List.findSome?_cons, hnone, ← hsofar]
      cases raisedBy s c ⟨r, b⟩ <;> rfl

/-- With one worker every schedule returns what taking one routine after the other does. -/
theorem outcome_of_single {ms : List Move} (hworkers : s.workers = 1)
    (h : (start s routines c).follow ms = some p) (hdone : p.isDone = true) :
    p.outcome = s.inTurn routines c := by
  have hboth := follow_induction (P := fun p => Inv s routines c p ∧ InTurn s c p)
    (fun _ _ hp hnext => ⟨hp.1.next hnext, hp.2.next hp.1 hworkers hnext⟩)
    ⟨inv_start s routines c, inTurn_start s routines c⟩ h
  obtain ⟨hinv, hturn⟩ := hboth
  have hfault : p.fault = routines.findSome? (s.raises c) := by
    rw [hturn.fault, ← hinv.routines_eq, List.findSome?_map, ← List.head?_filterMap,
      ← List.head?_filterMap]
    refine congrArg List.head? (List.filterMap_congr ?_)
    intro t ht
    simp [raisedBy, isDone_iff.mp hdone t ht]
  unfold Settings.inTurn
  rw [← hfault]
  cases hsome : p.fault with
  | some f => rw [outcome, hsome]
  | none => exact hinv.outcome_of_fault_eq_none hdone hsome

end Pool

end FlowRecovery

import FlowRecovery.Proofs.Pipeline.Schedule

/-! What an observer is told of a run. Each routine that is taken up has a trace of its own: it starts, the
branches that were left as they are follow, and it completes. A schedule mixes the traces but never breaks
one, even if the run is interrupted: what a routine has told so far, with what it has still to tell, is its
trace. So once all tasks are over a routine has told its whole trace, or nothing if it was abandoned. The
start of the run stands in front of all traces, and its completion behind them if the run returns a
result. -/

namespace FlowRecovery

variable {s : Settings} {r : Routine} {rr : RoutineResult} {routines : List Routine} {c : Bool}
  {p p' : Pool} {o : Options} {n : Nat}

/-! ### One routine -/

/-- What there is to tell of the routine `r` and its result: the branches that were skipped if there is a
graph, and the fault and no vertices if there is none. -/
inductive RoutineResult.Told (r : Routine) (rr : RoutineResult) : List Event → Prop
  | failed {f : Fault} (hfault : rr.fault = some f) :
      Told r rr [.routineStart r.id r.ops.length, .routineComplete r.id 0 (some f)]
  | recovered {g : Graph} (hfault : rr.fault = none) (hgraph : rr.graph = some g) :
      Told r rr
        (.routineStart r.id r.ops.length ::
          rr.reduce.branches.skipped.map (fun skip => .branchUnstructured r.id skip.vertex skip.reason) ++
          [.routineComplete r.id g.size none])

theorem Settings.Recovers.told_trace (h : s.Recovers r rr) : rr.Told r (Event.trace r rr) := by
  cases h with
  | unbuilt hbuild => exact .failed rfl
  | unstructured hbuild hfault => exact .failed rfl
  | ok hbuild hfault => exact .recovered rfl rfl

/-- Nothing about the run as a whole is told of a routine. -/
theorem RoutineResult.Told.runComplete_not_mem {es : List Event} (h : rr.Told r es) (a b : Nat) :
    Event.runComplete a b ∉ es := by
  cases h with
  | failed hfault => simp
  | recovered hfault hgraph => simp

/-! ### Whose events -/

/-- What can happen while a run is on: a move of the pool, or an interruption from outside. -/
inductive Happening where
  | move (m : Move)
  | interruption
deriving DecidableEq, Repr

namespace Pool

/-- The pool after something happened; an interruption is only noted. -/
def after (p : Pool) : Happening → Option Pool
  | .move m => p.step m
  | .interruption => some { p with canceled := true }

/-- The pool after a schedule that may be interrupted at any time. -/
def undergo (p : Pool) : List Happening → Option Pool
  | [] => some p
  | h :: hs => (p.after h).bind (·.undergo hs)

theorem undergo_map_move (p : Pool) (ms : List Move) : p.undergo (ms.map .move) = p.follow ms := by
  induction ms generalizing p with
  | nil => rfl
  | cons m ms ih =>
    rw [List.map_cons, undergo, follow]
    exact congrArg (p.step m).bind (funext ih)

/-- The events that are added, each with the task whose move adds them. -/
def reports (p : Pool) (h : Happening) : List (Nat × Event) :=
  match h, p.after h with
  | .move (.advance i), some q => (q.events.drop p.events.length).map (i, ·)
  | _, _ => []

/-- The events of a schedule, each with the task that reports it. -/
def log (p : Pool) : List Happening → List (Nat × Event)
  | [] => []
  | h :: hs => p.reports h ++ ((p.after h).map (·.log hs)).getD []

/-- The events of the task at `i`. -/
def own (log : List (Nat × Event)) (i : Nat) : List Event := (log.filter (·.1 = i)).map (·.2)

theorem own_append (log log' : List (Nat × Event)) (i : Nat) :
    own (log ++ log') i = own log i ++ own log' i := by
  simp [own]

theorem own_map (es : List Event) (i j : Nat) : own (es.map (j, ·)) i = if j = i then es else [] := by
  unfold own
  by_cases hij : j = i <;> simp [hij, List.filter_map, Function.comp_def]

theorem mem_own {log : List (Nat × Event)} {i : Nat} {e : Event} : e ∈ own log i ↔ (i, e) ∈ log := by
  simp [own]

end Pool

/-! ### On the way -/

/-- What a phase has still to report. -/
def Phase.pending : Phase → List Event
  | .running _ es => es
  | _ => []

/-- All that there is to tell of a task, as far as its result is known. -/
def Task.trace (t : Task) : List Event :=
  match t.phase.result? with
  | some rr => Event.trace t.routine rr
  | none => []

namespace Pool

/-- Every task has told its trace but for what is pending, and a result is that of its routine. -/
structure Telling (s : Settings) (routines : List Routine) (log : List (Nat × Event)) (p : Pool) :
    Prop where
  settings_eq : p.settings = s
  routines_eq : p.tasks.map Task.routine = routines
  events_eq : p.events = .runStart routines.length s.workers :: log.map (·.2)
  tasks : ∀ i t, p.tasks[i]? = some t → s.Accounts false p.fault t ∧ own log i ++ t.phase.pending = t.trace
  inside : ∀ x ∈ log, x.1 < routines.length

theorem telling_start (s : Settings) (routines : List Routine) (c : Bool) :
    Telling s routines [] (start s routines c) where
  settings_eq := rfl
  routines_eq := (inv_start s routines c).routines_eq
  events_eq := rfl
  tasks := by
    intro i t ht
    obtain ⟨r, -, rfl⟩ := List.mem_map.mp (List.mem_of_getElem? ht)
    exact ⟨trivial, rfl⟩
  inside := by simp

/-- A turn ends with the result of its routine, also in a run that has been interrupted. -/
theorem Turn.accounts {a b : Phase} {es : List Event} {raised : Option Fault} (h : Turn p r a b es raised)
    (ha : p.settings.Accounts false p.fault ⟨r, a⟩) :
    p.settings.Accounts false (p.fault.or raised) ⟨r, b⟩ := by
  cases h with
  | abandon hcanceled => simp [Settings.Accounts]
  | start hcanceled => exact ⟨rfl, rfl⟩
  | report => exact ha
  | @finish rr =>
    refine ⟨rfl, ha.2, ?_⟩
    intro hkeep hfault
    simp [hkeep, hfault, Option.isSome_or]

/-- A turn tells what comes next in the trace of its task. -/
theorem Turn.tells {a b : Phase} {es : List Event} {raised : Option Fault} {told : List Event}
    (h : Turn p r a b es raised) (htold : told ++ a.pending = Task.trace ⟨r, a⟩) :
    (told ++ es) ++ b.pending = Task.trace ⟨r, b⟩ := by
  cases h with
  | abandon hcanceled =>
    rw [List.append_nil]
    exact htold
  | start hcanceled =>
    have hnil : told = [] := by simpa [Phase.pending, Task.trace, Phase.result?] using htold
    rw [hnil]
    rfl
  | report =>
    rw [List.append_assoc]
    exact htold
  | finish =>
    rw [List.append_nil]
    exact htold

/-- A task other than the one that moves stays as it is. -/
theorem getElem?_of_ne {before after : List Task} {t t' u : Task} {i : Nat} (hi : i ≠ before.length)
    (h : (before ++ t' :: after)[i]? = some u) : (before ++ t :: after)[i]? = some u := by
  rw [List.getElem?_append] at h ⊢
  split_ifs at h ⊢
  · exact h
  · rwa [show i - before.length = i - before.length - 1 + 1 by omega] at h ⊢

theorem map_routine_setPhase (p : Pool) (i : Nat) (phase : Phase) :
    (p.setPhase i phase).tasks.map Task.routine = p.tasks.map Task.routine := by
  refine List.ext_getElem? fun j => ?_
  rw [setPhase, List.getElem?_map, List.getElem?_map, List.getElem?_modify]
  by_cases hij : i = j <;> simp [hij, Function.comp_def]

theorem Telling.launch {log : List (Nat × Event)} (h : Telling s routines log p)
    (hstep : p.step .launch = some p') : Telling s routines log p' := by
  simp only [step] at hstep
  split_ifs at hstep
  obtain ⟨j, hj, rfl⟩ := Option.map_eq_some_iff.mp hstep
  obtain ⟨hlt, hqueued, -⟩ := List.findIdx?_eq_some_iff_getElem.mp hj
  refine ⟨h.settings_eq, ?_, h.events_eq, ?_, h.inside⟩
  · exact (map_routine_setPhase p j .launched).trans h.routines_eq
  · intro i t ht
    simp only [setPhase, List.getElem?_modify] at ht
    obtain ⟨u, hu, rfl⟩ := Option.map_eq_some_iff.mp ht
    obtain ⟨haccounts, htrace⟩ := h.tasks i u hu
    split_ifs with hij
    · -- nothing is told of a task in the queue, nor of one that was launched
      obtain rfl : p.tasks[j] = u := Option.some.inj ((List.getElem?_eq_getElem hlt).symm.trans (hij ▸ hu))
      rw [Task.trace, Phase.isQueued_iff.mp hqueued] at htrace
      exact ⟨trivial, htrace⟩
    · exact ⟨haccounts, htrace⟩

theorem Telling.advance {log : List (Nat × Event)} {j : Nat} (h : Telling s routines log p)
    (hstep : p.step (.advance j) = some p') :
    Telling s routines (log ++ p.reports (.move (.advance j))) p' := by
  obtain ⟨before, after, r, a, b, es, raised, rfl, htasks, hturn, rfl⟩ := turn_of_advance hstep
  have hreports : p.reports (.move (.advance before.length)) = es.map (before.length, ·) := by
    simp [reports, Pool.after, hstep, turned]
  have hroutines := h.routines_eq
  rw [htasks] at hroutines
  rw [hreports]
  refine ⟨h.settings_eq, by simpa [turned] using hroutines, by simp [turned, h.events_eq], ?_, ?_⟩
  · intro i t ht
    simp only [turned] at ht
    rw [own_append, own_map]
    by_cases hi : i = before.length
    · subst hi
      obtain ⟨haccounts, htrace⟩ := h.tasks before.length ⟨r, a⟩ (by simp [htasks])
      obtain rfl : ⟨r, b⟩ = t := by simpa using ht
      rw [if_pos rfl]
      exact ⟨h.settings_eq ▸ hturn.accounts (h.settings_eq ▸ haccounts), hturn.tells htrace⟩
    · obtain ⟨haccounts, htrace⟩ := h.tasks i t (htasks ▸ getElem?_of_ne hi ht)
      rw [if_neg (Ne.symm hi), List.append_nil]
      exact ⟨haccounts.or raised, htrace⟩
  · intro x hx
    rcases List.mem_append.mp hx with hx | hx
    · exact h.inside x hx
    · obtain ⟨e, -, rfl⟩ := List.mem_map.mp hx
      simp [← hroutines]

theorem Telling.after {log : List (Nat × Event)} {happening : Happening} (h : Telling s routines log p)
    (hafter : p.after happening = some p') : Telling s routines (log ++ p.reports happening) p' := by
  cases happening with
  | interruption =>
    obtain rfl := Option.some.inj hafter
    rw [show p.reports .interruption = [] from rfl, List.append_nil]
    exact ⟨h.settings_eq, h.routines_eq, h.events_eq, h.tasks, h.inside⟩
  | move m =>
    cases m with
    | launch =>
      rw [show p.reports (.move .launch) = [] from rfl, List.append_nil]
      exact h.launch hafter
    | advance j => exact h.advance hafter

/-- What a schedule tells, in addition to what was told before. -/
theorem Telling.undergo {log : List (Nat × Event)} {hs : List Happening} (h : Telling s routines log p)
    (hundergo : p.undergo hs = some p') : Telling s routines (log ++ p.log hs) p' := by
  induction hs generalizing p log with
  | nil =>
    obtain rfl := Option.some.inj hundergo
    rwa [Pool.log, List.append_nil]
  | cons happening hs ih =>
    obtain ⟨q, hafter, hrest⟩ := Option.bind_eq_some_iff.mp hundergo
    have hlater := ih (h.after hafter) hrest
    rw [List.append_assoc] at hlater
    rw [Pool.log, hafter]
    exact hlater

/-! ### At the end -/

/-- A run that is over and has told its story. The task of each routine has either finished, and told what
there is to tell of it, or was abandoned in a run that fails, and told nothing; no event is of any other
task. The start of the run comes first, and its completion last, if and only if the run returns a
result. -/
structure WellTold (s : Settings) (routines : List Routine) (log : List (Nat × Event)) (p : Pool) :
    Prop where
  own : ∀ i r, routines[i]? = some r →
    p.tasks[i]? = some ⟨r, .finished (s.recover r)⟩ ∧ (s.recover r).Told r (own log i) ∨
      p.tasks[i]? = some ⟨r, .abandoned⟩ ∧ own log i = [] ∧ ∃ f, p.outcome = .error f
  inside : ∀ x ∈ log, x.1 < routines.length
  events_of_ok : ∀ result, p.outcome = .ok result →
    p.allEvents = .runStart routines.length s.workers :: log.map (·.2) ++
      [.runComplete result.stats.routines result.stats.failed]
  events_of_error : ∀ f, p.outcome = .error f →
    p.allEvents = .runStart routines.length s.workers :: log.map (·.2)
  complete_iff : (∃ a b, .runComplete a b ∈ p.allEvents) ↔ ∃ result, p.outcome = .ok result

theorem Telling.wellTold {log : List (Nat × Event)} (h : Telling s routines log p)
    (hdone : p.isDone = true) : WellTold s routines log p := by
  have hown : ∀ i r, routines[i]? = some r →
      p.tasks[i]? = some ⟨r, .finished (s.recover r)⟩ ∧ (s.recover r).Told r (Pool.own log i) ∨
        p.tasks[i]? = some ⟨r, .abandoned⟩ ∧ Pool.own log i = [] ∧ ∃ f, p.outcome = .error f := by
    intro i r hi
    rw [← h.routines_eq, List.getElem?_map] at hi
    obtain ⟨t, ht, rfl⟩ := Option.map_eq_some_iff.mp hi
    have hover := isDone_iff.mp hdone t (List.mem_of_getElem? ht)
    obtain ⟨haccounts, htrace⟩ := h.tasks i t ht
    obtain ⟨r, phase⟩ := t
    cases phase with
    | queued => simp [Phase.isOver, Phase.isQueued] at hover
    | launched => simp [Phase.isOver, Phase.isActive] at hover
    | running rr pending => simp [Phase.isOver, Phase.isActive] at hover
    | finished rr =>
      have hrr : rr = s.recover r := haccounts.2.1
      subst hrr
      have htrace : Pool.own log i = Event.trace r (s.recover r) := (List.append_nil _).symm.trans htrace
      exact Or.inl ⟨ht, htrace ▸ (s.recovers_recover r).told_trace⟩
    | abandoned =>
      obtain ⟨f, hf⟩ := Option.isSome_iff_exists.mp haccounts
      have htrace : Pool.own log i = [] := (List.append_nil _).symm.trans htrace
      exact Or.inr ⟨ht, htrace, f, by rw [outcome, hf]⟩
  have hlog : ∀ a b, .runComplete a b ∉ log.map (·.2) := by
    intro a b hmem
    obtain ⟨⟨i, e⟩, hx, rfl⟩ := List.mem_map.mp hmem
    obtain ⟨r, hr⟩ : ∃ r, routines[i]? = some r := ⟨_, List.getElem?_eq_getElem (h.inside _ hx)⟩
    rcases hown i r hr with ⟨-, htold⟩ | ⟨-, hnil, -⟩
    · exact htold.runComplete_not_mem a b (mem_own.mpr hx)
    · exact List.not_mem_nil (hnil ▸ mem_own.mpr hx)
  refine ⟨hown, h.inside, ?_, ?_, ?_⟩
  · intro result hok
    simp only [allEvents, hok, h.events_eq]
  · intro f herror
    simp only [allEvents, herror, h.events_eq]
  · cases houtcome : p.outcome with
    | error f =>
      simp only [allEvents, houtcome, h.events_eq]
      simpa using hlog
    | ok result =>
      simp only [allEvents, houtcome]
      exact ⟨fun _ => ⟨result, rfl⟩, fun _ => ⟨_, _, List.mem_append_right _ (List.mem_singleton_self _)⟩⟩

end Pool

namespace Options

/-- The events of a run are in order whatever the schedule, also if the run is interrupted. With options
that are not valid there are none. Otherwise the traces of the routines that are taken up are told, whole
and each in its order, between the start of the run and its completion, which is told if and only if the run
returns a result. The run that takes one routine after the other follows such a schedule. -/
theorem run_wellTold (hn : 0 < n) (o : Options) (routines : List Routine) (c : Bool) :
    (∀ f, o.settings n = .error f → (o.run n routines c).events = [] ∧
      (o.run n routines c).outcome = .error (invalid f)) ∧
    ∀ s, o.settings n = .ok s →
      (∀ hs p, (Pool.start s routines c).undergo hs = some p → p.isDone = true →
        Pool.WellTold s routines ((Pool.start s routines c).log hs) p) ∧
      ∃ (ms : List Move) (p : Pool), (Pool.start s routines c).undergo (ms.map .move) = some p ∧ p.isDone = true ∧
        (o.run n routines c).events = p.allEvents ∧ (o.run n routines c).outcome = p.outcome := by
  refine ⟨?_, ?_⟩
  · intro f hf
    simp [run, hf]
  · intro s hs
    refine ⟨?_, ?_⟩
    · intro hs p hundergo hdone
      exact ((Pool.telling_start s routines c).undergo hundergo).wellTold hdone
    · obtain ⟨ms, hms, hdone⟩ := Pool.exists_follow_runInOrder (p := Pool.start s routines c)
        (workers_pos hs (Or.inl hn)) (Pool.work_start_le s routines c)
      refine ⟨ms, _, ?_, hdone, by simp [run, hs, Pool.run], by simp [run, hs, Pool.run]⟩
      rw [Pool.undergo_map_move, hms]

/-- A schedule for `mixedRoutines` and two workers: the second routine fails while the first one reports,
and the third one is abandoned. -/
def mixedHappenings : List Happening :=
  [.launch, .launch, .advance 0, .advance 1, .advance 0, .advance 1, .advance 1, .launch, .advance 2,
    .advance 0].map .move ++ [.interruption, .move (.advance 0)]

theorem mixedRoutines_run_wellTold :
    (({ workers := -1 } : Options).run 1 mixedRoutines false).events = [] ∧
      ∃ p, (Pool.start { workers := 2 } mixedRoutines false).undergo mixedHappenings = some p ∧
        p.isDone = true ∧
        (List.range 3).map (fun i =>
          (Pool.own ((Pool.start { workers := 2 } mixedRoutines false).log mixedHappenings) i).length) =
            [3, 2, 0] ∧
        Pool.WellTold { workers := 2 } mixedRoutines
          ((Pool.start { workers := 2 } mixedRoutines false).log mixedHappenings) p :=
  ⟨((run_wellTold Nat.one_pos { workers := -1 } mixedRoutines false).1 _ rfl).1, _, rfl, rfl, by decide,
    ((run_wellTold Nat.one_pos { workers := 2 } mixedRoutines false).2 _ rfl).1 mixedHappenings _ rfl rfl⟩

end Options

end FlowRecovery

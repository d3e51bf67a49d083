import FlowRecovery.Proofs.Command.Faults
import FlowRecovery.Proofs.Pipeline.History

/-! The exit status of a command that runs routines. The program ends with status 2 if and only if the listing,
the table and the options are accepted and a routine fails that is not passed over. This holds in every world,
whatever it answers to what is read, printed, written and picked, for every way to decode listings and tables
and to encode results, and for every schedule of the run. The fault that is reported is then one of a routine,
with the code that it was raised with; and all that can fail does so before anything is printed or written,
unless it is the printing or the writing itself. -/

namespace FlowRecovery

variable {σ : Type} {tools : Tools} {s : Surroundings} {w : World σ} {state : σ} {path output : String}
  {flags : RunFlags} {f : Fault} {sent : String → Prop}

/-! ### Faults of routines -/

/-- It says what is wrong with a routine of the listing. -/
def Fault.BreaksRoutine (f : Fault) : Prop :=
  f.code? = some .unknownLabel ∨ f.code? = some .duplicateLabel ∨ f.code? = some .ambiguousBranch

theorem Fault.BreaksRoutine.fatal (h : f.BreaksRoutine) : f.fatal = true := by
  unfold Fault.fatal
  rcases h with hcode | hcode | hcode <;> rw [hcode] <;> rfl

/-- The layers that say in which routine and at which stage it failed keep the code. -/
theorem Settings.Recovers.breaksRoutine {st : Settings} {r : Routine} {rr : RoutineResult}
    (h : st.Recovers r rr) (hf : rr.fault = some f) : f.BreaksRoutine := by
  cases h with
  | unbuilt hbuild =>
    obtain rfl := Option.some.inj hf
    obtain ⟨code, message, rfl, hcode⟩ := Routine.code?_of_build_eq_error hbuild
    rcases hcode with rfl | rfl
    · exact Or.inr (Or.inl rfl)
    · exact Or.inl rfl
  | unstructured hbuild hfault =>
    obtain rfl := Option.some.inj hf
    obtain ⟨v, complaint, rfl⟩ := Graph.fault_minimize_eq hfault
    exact Or.inr (Or.inr rfl)
  | ok hbuild hfault => simp at hf

/-! ### Runs -/

/-- How a run ends that is not cancelled: at its options, at a routine that fails, or with what its routines
yield. -/
inductive Options.Ends (o : Options) (n : Nat) (routines : List Routine) : Except Fault Result → Prop
  | invalid {f : Fault} (hs : o.settings n = .error f) : Ends o n routines (.error (invalid f))
  | broken {st : Settings} {r : Routine} {f : Fault} (hs : o.settings n = .ok st)
      (hkeep : o.keepGoing = false) (hr : r ∈ routines) (hf : (st.recover r).fault = some f) :
      Ends o n routines (.error f)
  | ok {st : Settings} (hs : o.settings n = .ok st)
      (hwhole : o.keepGoing = true ∨ ∀ r ∈ routines, (st.recover r).fault.isSome = false) :
      Ends o n routines (.ok { routines := routines.map st.recover })

theorem Options.Reports.ends {o : Options} {n : Nat} {routines : List Routine} {report : RunReport}
    (h : o.Reports n routines false report) : o.Ends n routines report.outcome := by
  unfold Reports at h
  split at h
  · next f hs =>
    subst h
    exact .invalid hs
  · next st hs =>
    obtain ⟨ms, p, hfollow, hdone, rfl⟩ := h
    have hinv := Pool.inv_follow hfollow
    have hgoing := (settings_eq_ok hs).2.2.2
    cases hfault : p.fault with
    | some f =>
      rcases hinv.fault_of f hfault with ⟨hcanceled, -⟩ | ⟨-, hstops, r, hr, hf⟩
      · exact absurd hcanceled Bool.false_ne_true
      · rw [Pool.outcome, hfault]
        exact .broken hs (hgoing.symm.trans hstops) hr hf
    | none =>
      have hok := hinv.outcome_of_fault_eq_none hdone hfault
      rw [hok]
      refine .ok hs ?_
      by_cases hkeep : o.keepGoing = true
      · exact Or.inl hkeep
      · have hfast := failsFast_of_inv hs (Bool.eq_false_iff.mpr hkeep) hinv hdone fun hone =>
          Pool.outcome_of_single hone hfollow hdone
        refine Or.inr fun r hr => Bool.eq_false_iff.mpr fun hsome => ?_
        obtain ⟨f, hf⟩ := hfast.error_iff.mpr ⟨r, hr, by rw [recover_eq hs]; exact hsome⟩
        rw [hok] at hf
        simp at hf

/-! ### Outcomes -/

namespace Outcome

variable {o : Outcome σ}

theorem status_of_fault (h : o.fault = some f) : o.status = f.exitStatus := by
  rw [status, h]
  rfl

theorem status_of_none (h : o.fault = none) : o.status = 0 := by
  rw [status, h]
  rfl

/-- Nothing was printed, and nothing written. -/
def Untouched (state : σ) (o : Outcome σ) : Prop := o.output = "" ∧ o.state = state

/-- The world did not take a text that was to go to `output`, and the fault says so. -/
inductive Refused (w : World σ) (state : σ) (output text : String) (o : Outcome σ) : Prop
  | print {df : DiskFault} (hplace : output = "") (hprint : w.print state text = some df)
      (hfault : o.fault = some (Job.unprinted df)) (hstate : o.state = state)
  | write {df : DiskFault} (hplace : output ≠ "") (hwrite : (w.write state output text).1 = some df)
      (hfault : o.fault = some (Job.unwritten output df)) (hsilent : o.output = "")

/-- If it failed, then mildly, and before anything was printed or written, unless a text was refused that was
to be sent. -/
def Spares (w : World σ) (state : σ) (output : String) (sent : String → Prop) (o : Outcome σ) : Prop :=
  ∀ f, o.fault = some f →
    f.exitStatus = 1 ∧ (o.Untouched state ∨ ∃ text, sent text ∧ o.Refused w state output text)

theorem Spares.of_none (h : o.fault = none) : o.Spares w state output sent := by
  intro f hf
  rw [h] at hf
  simp at hf

theorem Spares.of_fault (hf : f.exitStatus = 1) (events : List ListingEvent) :
    Spares w state output sent { state, events, fault := some f } := by
  rintro f' hf'
  obtain rfl := Option.some.inj hf'
  exact ⟨hf, Or.inl ⟨rfl, rfl⟩⟩

end Outcome

/-! ### What comes of a result -/

namespace Job

theorem spares_check {α : Type} {x : Except Fault α} {next : α → Job} (hx : FailsMildly x)
    (hnext : ∀ a, x = .ok a → ((next a).runIn w state).Spares w state output sent) :
    ((check x next).runIn w state).Spares w state output sent := by
  cases x with
  | error f => exact .of_fault (hx f rfl) []
  | ok a => exact hnext a rfl

theorem spares_printResult {r : Result} (hsent : ∀ text, r.textBy tools.encode = .ok text → sent text) :
    ((printResult tools r).runIn w state).Spares w state "" sent := by
  refine spares_check (r.failsMildly_textBy tools.encode) fun text htext => ?_
  simp only [runIn]
  split
  · exact .of_none rfl
  · next df hprint =>
    rintro f hf
    obtain rfl := Option.some.inj hf
    exact ⟨rfl, Or.inr ⟨text, hsent text htext, .print rfl hprint rfl rfl⟩⟩

theorem spares_writeResult {r : Result} (houtput : output ≠ "")
    (hsent : ∀ text, r.textBy tools.encode = .ok text → sent text) :
    ((writeResult tools path output r).runIn w state).Spares w state output sent := by
  have hmild := r.failsMildly_textBy tools.encode
  unfold writeResult
  split
  · next f hf => exact .of_fault (hmild f hf) [.written output 0 (some f)]
  · next text htext =>
    simp only [runIn]
    split
    · exact .of_none rfl
    · next df hwrite =>
      rintro f hf
      obtain rfl := Option.some.inj hf
      exact ⟨rfl, Or.inr ⟨text, hsent text htext, .write houtput hwrite rfl rfl⟩⟩

/-- A place to put a result: the output, or a file whose path is in order. -/
def IsPlace (output : String) : Prop :=
  output = "" ∨ Input.checkPath (Text.Piece.ofString output) = .ok ()

theorem spares_deliver {r : Result}
    (hsent : IsPlace output → ∀ text, r.textBy tools.encode = .ok text → sent text) :
    ((deliver tools path output r).runIn w state).Spares w state output sent := by
  unfold deliver
  split_ifs with houtput
  · subst houtput
    exact spares_printResult (hsent (Or.inl rfl))
  · exact spares_check (Input.failsMildly_checkPath _) fun _ hpath =>
      spares_writeResult houtput (hsent (Or.inr hpath))

theorem spares_showRoutine (r : Result) (id : Int) :
    ((showRoutine r id).runIn w state).Spares w state output sent :=
  spares_check (r.failsMildly_find id) fun _ _ => .of_none rfl

theorem spares_present (routine : Int) (r : Result) :
    ((present s path routine r).runIn w state).Spares w state output sent := by
  unfold present
  split_ifs
  · exact .of_none rfl
  · exact spares_showRoutine r routine
  · simp only [runIn]
    split
    · exact spares_showRoutine r _
    · exact .of_none rfl
    · exact .of_fault rfl []
  · exact .of_none rfl

/-! ### What a command finds -/

section Finds

variable (tools : Tools) (s : Surroundings) (w : World σ) (state : σ) (path : String)

/-- The routines of the listing at a path. -/
def listingIn : Except Fault (List Routine) := do
  Input.checkListingPath (Text.Piece.ofString path)
  Listing.ofFile tools.listing path (w.read state path)

/-- The table at a path, or the one in effect if there is no path. -/
def tableIn : Except Fault Table :=
  if path ≠ "" then do
    Input.checkPath (Text.Piece.ofString path)
    Table.ofFile tools.table path (w.read state path)
  else match s.tablePath? with
    | none => .ok .default
    | some path => Table.ofFileOrDefault tools.table path (w.read state path)

theorem failsMildly_listingIn : FailsMildly (listingIn tools w state path) :=
  (Input.failsMildly_checkListingPath _).bind fun _ => Listing.failsMildly_ofFile _ _ _

theorem failsMildly_tableIn : FailsMildly (tableIn tools s w state path) := by
  unfold tableIn
  split_ifs
  · exact (Input.failsMildly_checkPath _).bind fun _ => Table.failsMildly_ofFile _ _ _
  · split
    · exact .ok _
    · exact Table.failsMildly_ofFileOrDefault _ _ _

theorem runIn_withListing (next : List Routine → Job) :
    (withListing tools path next).runIn w state =
      ((check (listingIn tools w state path) next).runIn w state).telling
        (Listing.readEvent path (listingIn tools w state path)) := by
  unfold withListing listingIn
  cases Input.checkListingPath (Text.Piece.ofString path) <;> rfl

theorem runIn_withTable (next : Table → Job) :
    (withTable tools s path next).runIn w state =
      (check (tableIn tools s w state path) next).runIn w state := by
  unfold withTable tableIn
  split_ifs
  · cases Input.checkPath (Text.Piece.ofString path) <;> rfl
  · cases s.tablePath? <;> rfl

/-- The listing, the table and the options are accepted. -/
structure Accepts (flags : RunFlags) (routines : List Routine) (table : Table) (st : Settings) : Prop where
  listing_eq : listingIn tools w state path = .ok routines
  table_eq : tableIn tools s w state flags.opcodes = .ok table
  settings_eq : (optionsOf flags table).settings s.processors = .ok st

/-- All is accepted, and a routine fails that is not passed over. -/
def Breaks (flags : RunFlags) : Prop :=
  flags.keepGoing = false ∧ ∃ routines table st, Accepts tools s w state path flags routines table st ∧
    ∃ r ∈ routines, (st.recover r).fault.isSome = true

/-- The run over the listing comes to a result. -/
def Yields (flags : RunFlags) (r : Result) : Prop :=
  ∃ routines table, listingIn tools w state path = .ok routines ∧
    tableIn tools s w state flags.opcodes = .ok table ∧
    (tools.run (optionsOf flags table) routines).outcome = .ok r

/-- There is a result, it has a text, and a place for it. -/
def Sends (flags : RunFlags) (output text : String) : Prop :=
  IsPlace output ∧ ∃ r, Yields tools s w state path flags r ∧ r.textBy tools.encode = .ok text

end Finds

end Job

/-! ### Exit status -/

/-- The tools run routines each time by a schedule that is possible. -/
def Tools.Schedules (tools : Tools) (s : Surroundings) : Prop :=
  ∀ (o : Options) (routines : List Routine),
    o.Reports s.processors routines s.canceled (tools.run o routines)

theorem Tools.schedules_usual (hprocessors : 0 < s.processors) : (Tools.usual s).Schedules s :=
  fun o routines => o.reports_run s.processors (Or.inl hprocessors) routines s.canceled

namespace Job

variable {routines : List Routine} {table : Table} {st : Settings} {outcome : Except Fault Result}

theorem Accepts.breaks_iff (h : Accepts tools s w state path flags routines table st) :
    Breaks tools s w state path flags ↔
      flags.keepGoing = false ∧ ∃ r ∈ routines, (st.recover r).fault.isSome = true := by
  refine and_congr_right fun _ => ⟨?_, fun hr => ⟨routines, table, st, h, hr⟩⟩
  rintro ⟨routines', table', st', h', hr⟩
  obtain rfl := Except.ok.inj (h.listing_eq.symm.trans h'.listing_eq)
  obtain rfl := Except.ok.inj (h.table_eq.symm.trans h'.table_eq)
  obtain rfl := Except.ok.inj (h.settings_eq.symm.trans h'.settings_eq)
  exact hr

/-- How a command ends that runs routines: with status 2 if and only if a routine fails that is not passed
over, and then with a fault of a routine; with status 1 if it fails otherwise. If it fails in any way then
nothing has been printed or written, unless the text of the result was ready to be sent, and refused. -/
structure Exits (tools : Tools) (s : Surroundings) (w : World σ) (state : σ) (path : String) (flags : RunFlags)
    (output : String) (o : Outcome σ) : Prop where
  two_iff : o.status = 2 ↔ Breaks tools s w state path flags
  otherwise : ¬ Breaks tools s w state path flags → o.status = if o.fault.isSome then 1 else 0
  code : o.status = 2 → ∃ f, o.fault = some f ∧ f.BreaksRoutine
  clean : o.fault.isSome = true → o.Untouched state ∨
    ∃ text, Sends tools s w state path flags output text ∧ o.Refused w state output text

theorem Exits.of_spares {o : Outcome σ}
    (h : o.Spares w state output (Sends tools s w state path flags output))
    (hwhole : ¬ Breaks tools s w state path flags) : Exits tools s w state path flags output o := by
  have hstatus : o.status = if o.fault.isSome then 1 else 0 := by
    cases hfault : o.fault with
    | none => exact Outcome.status_of_none hfault
    | some f => exact (Outcome.status_of_fault hfault).trans (h f hfault).1
  have hnot : o.status ≠ 2 := by
    rw [hstatus]
    split_ifs <;> simp
  refine ⟨⟨fun htwo => absurd htwo hnot, fun hbreaks => absurd hbreaks hwhole⟩, fun _ => hstatus,
    fun htwo => absurd htwo hnot, fun hsome => ?_⟩
  obtain ⟨f, hf⟩ := Option.isSome_iff_exists.mp hsome
  exact (h f hf).2

theorem Exits.telling {o : Outcome σ} (h : Exits tools s w state path flags output o) (e : ListingEvent) :
    Exits tools s w state path flags output (o.telling e) := by
  refine ⟨h.two_iff, h.otherwise, h.code, fun hsome => (h.clean hsome).imp_right ?_⟩
  rintro ⟨text, hsends, hrefused⟩
  refine ⟨text, hsends, ?_⟩
  cases hrefused with
  | print hplace hprint hfault hstate => exact .print hplace hprint hfault hstate
  | write hplace hwrite hfault hsilent => exact .write hplace hwrite hfault hsilent

/-- Once the listing and the table are accepted it depends on how the run ends. -/
theorem exits_of_ends (hlisting : listingIn tools w state path = .ok routines)
    (htable : tableIn tools s w state flags.opcodes = .ok table)
    (hends : (optionsOf flags table).Ends s.processors routines outcome) {next : Result → Job}
    (hnext : ∀ r, outcome = .ok r →
      ((next r).runIn w state).Spares w state output (Sends tools s w state path flags output)) :
    Exits tools s w state path flags output ((check outcome next).runIn w state) := by
  cases hends with
  | @invalid f hs =>
    have hmild := (optionsOf flags table).failsMildly_settings s.processors f hs
    refine .of_spares (.of_fault ((Fault.exitStatus_within _ f).trans hmild) []) ?_
    rintro ⟨-, routines', table', st, h, -⟩
    obtain rfl := Except.ok.inj (htable.symm.trans h.table_eq)
    exact nomatch hs.symm.trans h.settings_eq
  | @broken st r f hs hkeep hr hf =>
    have hrecovers := st.recovers_recover r
    have hbroken := hrecovers.breaksRoutine hf
    have htwo := (Fault.exitStatus_eq_two_iff f).mpr ⟨hrecovers.not_isCanceled hf, hbroken.fatal⟩
    have hbreaks : Breaks tools s w state path flags :=
      ⟨hkeep, routines, table, st, ⟨hlisting, htable, hs⟩, r, hr, by rw [hf]; rfl⟩
    exact ⟨⟨fun _ => hbreaks, fun _ => htwo⟩, fun hwhole => absurd hbreaks hwhole,
      fun _ => ⟨f, rfl, hbroken⟩, fun _ => Or.inl ⟨rfl, rfl⟩⟩
  | @ok st hs hwhole =>
    refine .of_spares (hnext _ rfl) fun hbreaks => ?_
    obtain ⟨hkeep, r, hr, hsome⟩ := (Accepts.mk hlisting htable hs).breaks_iff.mp hbreaks
    rcases hwhole with hgoing | hnone
    · exact nomatch hgoing.symm.trans hkeep
    · exact nomatch hsome.symm.trans (hnone r hr)

theorem exits_withResult (hcanceled : s.canceled = false) (hrun : tools.Schedules s) {next : Result → Job}
    (hnext : ∀ r, Yields tools s w state path flags r →
      ((next r).runIn w state).Spares w state output (Sends tools s w state path flags output)) :
    Exits tools s w state path flags output ((withResult tools s path flags next).runIn w state) := by
  unfold withResult
  rw [runIn_withListing]
  refine Exits.telling ?_ _
  cases hlisting : listingIn tools w state path with
  | error f =>
    refine .of_spares (.of_fault (failsMildly_listingIn tools w state path f hlisting) []) ?_
    rintro ⟨-, routines, table, st, h, -⟩
    exact nomatch hlisting.symm.trans h.listing_eq
  | ok routines =>
    change Exits tools s w state path flags output ((withTable tools s flags.opcodes _).runIn w state)
    rw [runIn_withTable]
    cases htable : tableIn tools s w state flags.opcodes with
    | error f =>
      refine .of_spares (.of_fault (failsMildly_tableIn tools s w state flags.opcodes f htable) []) ?_
      rintro ⟨-, routines', table, st, h, -⟩
      exact nomatch htable.symm.trans h.table_eq
    | ok table =>
      have hreports := hrun (optionsOf flags table) routines
      rw [hcanceled] at hreports
      exact exits_of_ends hlisting htable hreports.ends fun r hr =>
        hnext r ⟨routines, table, hlisting, htable, hr⟩

theorem not_breaks_of_keepGoing (h : flags.keepGoing = true) : ¬ Breaks tools s w state path flags :=
  fun hbreaks => nomatch h.symm.trans hbreaks.1

/-- A command that structures a listing and is not interrupted ends with status 2 if and only if the listing,
the table and the options are accepted, it does not keep going, and a routine fails; and if it fails then it
has printed and written nothing, unless the world did not take the result. A command that inspects a listing
never ends with status 2. This holds in every world and for all tools that run routines by a schedule that is
possible, and those of the program do. -/
theorem exitStatus_recover (hcanceled : s.canceled = false) (hprocessors : 0 < s.processors) :
    (∀ (st : Settings) (r : Routine) (f : Fault), (st.recover r).fault = some f → f.BreaksRoutine) ∧
    (Tools.usual s).Schedules s ∧
    ∀ tools : Tools, tools.Schedules s →
      ∀ (w : World σ) (state : σ) (path : String) (flags : RunFlags),
        (∀ output, Exits tools s w state path flags output
          ((recover tools s path flags output).runIn w state)) ∧
        ∀ routine, ((inspect tools s path flags routine).runIn w state).status ≠ 2 := by
  refine ⟨fun st r f hf => (st.recovers_recover r).breaksRoutine hf, Tools.schedules_usual hprocessors, ?_⟩
  intro tools hrun w state path flags
  constructor
  · intro output
    refine exits_withResult hcanceled hrun fun r hr => spares_deliver fun hplace text htext => ?_
    exact ⟨hplace, r, hr, htext⟩
  · intro routine htwo
    have hexits : Exits tools s w state path { flags with keepGoing := true } ""
        ((inspect tools s path flags routine).runIn w state) :=
      exits_withResult hcanceled hrun fun r _ => spares_present routine r
    exact not_breaks_of_keepGoing rfl (hexits.two_iff.mp htwo)

/-- A world with one file, at a path from the root. It holds a listing of one routine, which jumps to a label
that it does not define. -/
def strayWorld : World Unit where
  print _ _ := none
  read _ path :=
    if path = "/tmp/listing.yml" then
      .ok "routines: [\x7bid: 1, ops: [\x7bop: Jump, target: \x7blabel: 9\x7d\x7d]\x7d]".toUTF8
    else .error .notFound
  write _ _ _ := (some (.other "open" "permission denied"), ())
  pick _ _ := .nothing

theorem strayWorld_exitStatus :
    ((recover (.usual {}) {} "/tmp/listing.yml" {} "").runIn strayWorld ()).status = 2 ∧
    (Tools.usual {}).Schedules {} ∧
    (∀ output, Exits (.usual {}) {} strayWorld () "/tmp/listing.yml" {} output
      ((recover (.usual {}) {} "/tmp/listing.yml" {} output).runIn strayWorld ())) ∧
    ∀ routine, ((inspect (.usual {}) {} "/tmp/listing.yml" {} routine).runIn strayWorld ()).status ≠ 2 := by
  obtain ⟨-, husual, hall⟩ := exitStatus_recover (s := {}) rfl Nat.one_pos
  exact ⟨by decide +kernel, husual, hall (.usual {}) husual strayWorld () "/tmp/listing.yml" {}⟩

end Job

end FlowRecovery

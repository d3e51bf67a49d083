import FlowRecovery.Pipeline.Pool
import FlowRecovery.Proofs.Reduce.Minimize

/-! Where removed jumps go. The passes remove a jump by its edges: what led to it leads to where one of
its edges leads. The label that the jump names need not be there, since the edge to the operation behind
the jump may have been drawn to join trailing code, and a jump into another routine has no edge of its
own at all. So removal keeps where a jump goes exactly if the edge and the name agree, and they do if
all edges of removed jumps go to the labels that the jumps name. -/

namespace FlowRecovery

open Relation FlowRecovery.Graph

variable {r : Routine} {labels : LabelIndex} {t : Table} {g g' : Graph} {land : Int → Int}

/-- The label at `q` is removed, and the jump behind it names the label at `q'`. -/
def NamesOn (r : Routine) (labels : LabelIndex) (g g' : Graph) (q q' : Int) : Prop :=
  Removed g g' q ∧ ∃ e ∈ g.outs q, r.named? labels e.target = some q'

/-- The label at `q` is left and is `y`, or it is removed and its chain of jumps names `y` in the
end. -/
def StandsFor (r : Routine) (labels : LabelIndex) (g g' : Graph) (q y : Int) : Prop :=
  y ∈ g'.live ∧ ReflTransGen (NamesOn r labels g g') q y

/-- The edge led to the jump at `j`, directly or through the removed label in front of it. -/
def LedTo (g g' : Graph) (e : Edge) (j : Int) : Prop :=
  e.target = j ∨
    Removed g g' e.target ∧ g.isLabel e.target = true ∧ ∃ i ∈ g.outs e.target, i.target = j

/-- Every removed jump names a label of its own routine, and the edges that led to it lead to what that
label stands for. -/
def KeepsJumps (r : Routine) (labels : LabelIndex) (t : Table) (g g' : Graph)
    (land : Int → Int) : Prop :=
  ∀ j, Removed g g' j → g.IsJump t j → ∃ q, r.named? labels j = some q ∧
    ∀ u ∈ g'.live, ∀ e ∈ g.outs u, LedTo g g' e j → StandsFor r labels g g' q (land e.target)

/-! ### Names and edges -/

section Agree

variable (hland : Contraction Attrs.flow g g' land) (hremoves : RemovesJumps t g g')

include hremoves

/-- If removed jumps have edges to the labels that they name only, a path through removed vertices
follows the names: from a label, and from a jump by way of the label that it names. -/
theorem standsFor_of_path (hnames : ∀ {p q}, r.named? labels p = some q → g.isLabel q = true)
    (hedges : ∀ j, Removed g g' j → g.IsJump t j →
      ∃ q, r.named? labels j = some q ∧ ∀ o ∈ g.outs j, o.target = q)
    {x y : Int} (hy : y ∈ g'.live) (hpath : ReflTransGen (g.PassesOn (Removed g g')) x y) :
    (g.isLabel x = true → StandsFor r labels g g' x y) ∧
      ∀ q, r.named? labels x = some q → Removed g g' x → g.IsJump t x →
        StandsFor r labels g g' q y := by
  induction hpath using ReflTransGen.head_induction_on with
  | refl => exact ⟨fun _ => ⟨hy, ReflTransGen.refl⟩, fun _ _ hgone => absurd hy hgone.2⟩
  | head hstep _ ih =>
    obtain ⟨hgone, e, he, rfl, rfl⟩ := hstep
    have hout : e ∈ g.outs e.source := mem_outs.mpr ⟨he, rfl⟩
    refine ⟨?_, ?_⟩
    · intro hlabel
      rcases hremoves _ hgone with hjump | ⟨-, i, hi, hjump, hbehind⟩
      · exact absurd hlabel hjump.not_isLabel
      · obtain rfl : e = i := by simpa [hi] using hout
        obtain ⟨q, hq, -⟩ := hedges _ hbehind hjump
        obtain ⟨-, hrest⟩ := ih.2 q hq hbehind hjump
        exact ⟨hy, hrest.head ⟨hgone, e, hout, hq⟩⟩
    · intro q hq _ hjump
      obtain ⟨q', hq', htarget⟩ := hedges _ hgone hjump
      obtain rfl : q' = q := Option.some.inj (hq'.symm.trans hq)
      have heq : e.target = q' := htarget e hout
      rw [← heq]
      exact ih.1 (heq ▸ hnames hq)

include hland

theorem land_eq_of_ledTo {e : Edge} {j : Int} (h : LedTo g g' e j) : land e.target = land j := by
  rcases h with rfl | ⟨hgone, hlabel, i, hi, rfl⟩
  · rfl
  · obtain ⟨e', he', heq⟩ := hland.along _ hgone
    rcases hremoves _ hgone with hjump | ⟨-, i', hi', -⟩
    · exact absurd hlabel hjump.not_isLabel
    · rw [hi', List.mem_singleton] at hi he'
      rw [hi, ← he', heq]

theorem keepsJumps_iff :
    KeepsJumps r labels t g g' land ↔
      ∀ j, Removed g g' j → g.IsJump t j → ∃ q, r.named? labels j = some q ∧
        ((∃ u ∈ g'.live, ∃ e ∈ g.outs u, LedTo g g' e j) →
          StandsFor r labels g g' q (land j)) := by
  constructor
  · intro hkeeps j hgone hjump
    obtain ⟨q, hq, hedges⟩ := hkeeps j hgone hjump
    refine ⟨q, hq, ?_⟩
    rintro ⟨u, hu, e, he, hled⟩
    rw [← land_eq_of_ledTo hland hremoves hled]
    exact hedges u hu e he hled
  · intro hagree j hgone hjump
    obtain ⟨q, hq, hentered⟩ := hagree j hgone hjump
    refine ⟨q, hq, ?_⟩
    intro u hu e he hled
    rw [land_eq_of_ledTo hland hremoves hled]
    exact hentered ⟨u, hu, e, he, hled⟩

theorem keepsJumps_of_edges (hnames : ∀ {p q}, r.named? labels p = some q → g.isLabel q = true)
    (hedges : ∀ j, Removed g g' j → g.IsJump t j →
      ∃ q, r.named? labels j = some q ∧ ∀ o ∈ g.outs j, o.target = q) :
    KeepsJumps r labels t g g' land := by
  rw [keepsJumps_iff hland hremoves]
  intro j hgone hjump
  obtain ⟨q, hq, -⟩ := hedges j hgone hjump
  have hstands := (standsFor_of_path hremoves hnames hedges (hland.lands j hgone.1)
    (hland.path j)).2 q hq hgone hjump
  exact ⟨q, hq, fun _ => hstands⟩

end Agree

/-! ### Runs -/

theorem minimize_of_recover {o : Options} {n : Nat} (h : (o.recover n r).1.graphIfOk? = some g') :
    ∃ s g stats, o.settings n = .ok s ∧ r.build s.table = .ok (g, stats) ∧
      (g.minimize s.table s.passes).fault = none ∧ g' = (g.minimize s.table s.passes).graph := by
  unfold Options.recover at h
  split at h
  · simp [RoutineResult.graphIfOk?] at h
  · next s hs =>
    unfold Settings.recover at h
    simp only at h
    split at h
    · simp [RoutineResult.graphIfOk?] at h
    · next g stats hbuild =>
      split at h
      · simp [RoutineResult.graphIfOk?] at h
      · next hfault =>
        refine ⟨s, g, stats, hs, hbuild, hfault, ?_⟩
        simpa [RoutineResult.graphIfOk?] using h.symm

theorem isLabel_of_named?_of_build {stats : BuildStats} (h : r.build t = .ok (g, stats)) :
    ∃ labels, r.labelIndex = .ok labels ∧
      ∀ {p q}, r.named? labels p = some q → g.isLabel q = true := by
  rcases Routine.build_eq_ok h with ⟨hops, rfl, rfl⟩ | ⟨labels, w, hb⟩
  · refine ⟨{}, by rw [Routine.labelIndex, hops]; rfl, ?_⟩
    intro p q hq
    simp [Routine.named?, Routine.opAt?, hops] at hq
  · refine ⟨labels, hb.index_eq, ?_⟩
    intro p q hq
    obtain ⟨op, hop, hlabel⟩ := Routine.isLabel_of_named? hb.index_eq hq
    rw [isLabel, hb.spans.op?, hop, Option.any_some, hlabel]

/-- Where a run that succeeds leads the edges that led to jumps: as the edges of the jumps say. That is
where the jumps go exactly if the label that an entered jump names stands for the vertex that the jump
comes to along its edges, and so it is if removed jumps have no other edges than to the labels that they
name. -/
theorem recover_keepsJumps_iff {o : Options} {n : Nat}
    (h : (o.recover n r).1.graphIfOk? = some g') :
    ∃ s g stats labels land, o.settings n = .ok s ∧ r.build s.table = .ok (g, stats) ∧
      r.labelIndex = .ok labels ∧ Contraction Attrs.flow g g' land ∧
      (KeepsJumps r labels s.table g g' land ↔
        ∀ j, Removed g g' j → g.IsJump s.table j → ∃ q, r.named? labels j = some q ∧
          ((∃ u ∈ g'.live, ∃ e ∈ g.outs u, LedTo g g' e j) →
            StandsFor r labels g g' q (land j))) ∧
      ((∀ j, Removed g g' j → g.IsJump s.table j →
          ∃ q, r.named? labels j = some q ∧ ∀ e ∈ g.outs j, e.target = q) →
        KeepsJumps r labels s.table g g' land) := by
  obtain ⟨s, g, stats, hs, hbuild, hfault, rfl⟩ := minimize_of_recover h
  obtain ⟨labels, hlabels, hnames⟩ := isLabel_of_named?_of_build hbuild
  obtain ⟨⟨land, hland⟩, hremoves⟩ := contraction_minimize hbuild hfault
  exact ⟨s, g, stats, labels, land, hs, hbuild, hlabels, hland, keepsJumps_iff hland hremoves,
    keepsJumps_of_edges hland hremoves hnames⟩

theorem backChains_keepsJumps_iff :
    ∃ g', (({} : Options).recover 1 backChains).1.graphIfOk? = some g' ∧
      ∃ s g stats labels land, ({} : Options).settings 1 = .ok s ∧
        backChains.build s.table = .ok (g, stats) ∧
        backChains.labelIndex = .ok labels ∧ Contraction Attrs.flow g g' land ∧
        (KeepsJumps backChains labels s.table g g' land ↔
          ∀ j, Removed g g' j → g.IsJump s.table j → ∃ q, backChains.named? labels j = some q ∧
            ((∃ u ∈ g'.live, ∃ e ∈ g.outs u, LedTo g g' e j) →
              StandsFor backChains labels g g' q (land j))) ∧
        ((∀ j, Removed g g' j → g.IsJump s.table j →
            ∃ q, backChains.named? labels j = some q ∧ ∀ e ∈ g.outs j, e.target = q) →
          KeepsJumps backChains labels s.table g g' land) :=
  ⟨_, rfl, recover_keepsJumps_iff (o := {}) (n := 1) (r := backChains) rfl⟩

/-- A label with a jump into another routine behind it, and code behind the jump. -/
def strayJump : Routine :=
  { id := 1
    ops :=
      [.plain { code := { name := "Message" } }, .label 1,
        .labelJump { code := { name := "Jump" } } ⟨2, 5⟩, .label 2,
        .plain { code := { name := "Return" } }] }

/-- The jump into the other routine is removed, and what led to it falls through to the code behind. -/
theorem strayJump_not_keepsJumps :
    ∃ g stats g' labels, strayJump.build .default = .ok (g, stats) ∧
      strayJump.labelIndex = .ok labels ∧
      (({} : Options).recover 1 strayJump).1.graphIfOk? = some g' ∧
      g'.edges.map (fun e => (e.source, e.target)) = [(3, 4), (0, 3)] ∧
      ∀ land, ¬ KeepsJumps strayJump labels .default g g' land := by
  refine ⟨_, _, _, _, rfl, rfl, rfl, rfl, ?_⟩
  intro land hkeeps
  obtain ⟨q, hq, -⟩ := hkeeps 2 ⟨by decide, by decide⟩ ⟨_, rfl, by decide⟩
  simp [Routine.named?, strayJump, Routine.opAt?, Operation.localTarget?, Operation.labelJump] at hq

end FlowRecovery

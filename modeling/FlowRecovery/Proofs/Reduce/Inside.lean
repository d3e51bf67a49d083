import FlowRecovery.Proofs.Graph.Sealed
import FlowRecovery.Proofs.Reduce.Branches

/-! Moves inside and outside of a sealed part. A move between two vertices of the part, or between two
outside of it, leaves the part sealed; the first makes the same move in the core and the second does not
touch it. So chains of jumps inside the part are collapsed as if only the core were there, as long as no
chain has an edge that leaves the part. -/

namespace FlowRecovery.Graph

variable {S : List Int} {n : Nat} {t : Table} {g g₀ g' : Graph} {x old new : Int} {c : Chain}

/-! ### Sealed parts -/

/-- Moves that lead nothing in or out keep a part sealed. -/
theorem Sealed.moved {α : Type} {view : Attrs → α} {f : Int → Int} (h : Sealed S g)
    (hmoved : Moved view f g g') (hf : ∀ x, f x ∈ S ↔ x ∈ S) : Sealed S g' := by
  have hborder : g'.edges.countP (leaves S) = g.edges.countP (leaves S) := by
    have hcount := hmoved.countP_eq fun p : Int × α × Int => decide (p.1 ∈ S ∧ p.2.2 ∉ S)
    rw [List.countP_map, List.countP_map] at hcount
    refine Eq.trans (Eq.trans (List.countP_congr ?_) hcount) (List.countP_congr ?_)
    · intro e _
      rw [leaves_iff, Function.comp_apply, decide_eq_true_iff]
      exact Iff.rfl
    · intro e _
      rw [leaves_iff, Function.comp_apply, decide_eq_true_iff, row, hf]
  refine ⟨?_, hborder ▸ h.border, ?_⟩
  · intro e he htarget
    obtain ⟨e₀, he₀, hsource, -, hled⟩ := hmoved.mem_of_mem he
    exact hsource ▸ h.inward e₀ he₀ ((hf _).mp (hled ▸ htarget))
  · intro e he hleaves
    obtain ⟨e₀, he₀, hsource, -, hled⟩ := hmoved.mem_of_mem he
    rw [leaves_iff, ← hsource, ← hled, hf] at hleaves
    rw [hmoved.length_outs, ← hsource]
    exact h.slim e₀ he₀ (leaves_iff.mpr hleaves)

theorem lead_mem_iff (h : old ∈ S ↔ new ∈ S) (x : Int) : lead [(old, new)] x ∈ S ↔ x ∈ S := by
  by_cases hx : x = old
  · simp [lead, hx, h]
  · simp [lead, hx]

theorem Sealed.reroute (h : Sealed S g) (hg : g.WellFormed) (hnew : new ∈ g.live)
    (hside : old ∈ S ↔ new ∈ S) : Sealed S (Structuring.reroute g old new) :=
  h.moved (moved_reroute hg old hnew) (lead_mem_iff hside)

/-! ### Cores -/

/-- The core does not show markers or flags. -/
theorem SameActions.core (h : SameActions g₀ g)
    (hedges : g.edges.map Edge.bare = g₀.edges.map Edge.bare) : g.core S n = g₀.core S n := by
  have hops : g.ops.map Operation.clearMarkers = g₀.ops.map Operation.clearMarkers := by
    have hactions := congrArg (List.map fun a => Operation.mk a []) h.actions
    rwa [List.map_map, List.map_map] at hactions
  unfold Graph.core
  rw [List.map_take, List.map_take, hops, h.live, hedges]

/-- The edges with those to `old` led to `new`, behind the others. -/
def shift (old new : Int) (es : List Edge) : List Edge :=
  es.filter (fun e => !decide (e.target = old)) ++
    (es.filter fun e => decide (e.target = old)).map fun e => { e with target := new }

theorem bare_edges_reroute (hg : g.WellFormed) (hnew : new ∈ g.live) :
    (Structuring.reroute g old new).edges.map Edge.bare =
      shift old new (g.edges.map Edge.bare) := by
  -- an edge without number and flags can be read off its row
  have hrows := congrArg
    (List.map fun p : Int × Attrs × Int => Edge.mk 0 p.1 p.2.2 { level := p.2.1.level })
    (rows_reroute hg old hnew)
  rw [List.map_append, List.map_map, List.map_map, List.map_map] at hrows
  rw [shift, List.filter_map, List.filter_map, List.map_map]
  exact hrows

/-- A move inside is made in the core … -/
theorem core_reroute_inside (hg : g.WellFormed) (hnew : new ∈ g.live) (hold : old ∈ S)
    (hin : new ∈ S) :
    (Structuring.reroute g old new).core S n =
      { g.core S n with edges := shift old new (g.core S n).edges } := by
  have hshift : ∀ es : List Edge,
      (shift old new es).filter (inside S) = shift old new (es.filter (inside S)) := by
    intro es
    unfold shift
    rw [List.filter_append, List.filter_map, List.filter_filter, List.filter_filter,
      List.filter_filter, List.filter_filter]
    refine congrArg₂ (· ++ ·) (List.filter_congr fun e _ => Bool.and_comm ..) ?_
    refine congrArg (List.map _) (List.filter_congr ?_)
    intro e _
    by_cases htarget : e.target = old
    · simp [inside, htarget, hold, hin]
    · simp [htarget]
  unfold core
  rw [bare_edges_reroute hg hnew, hshift, ops_reroute, live_reroute]

/-- … and a move outside is not seen there. -/
theorem core_reroute_outside (hg : g.WellFormed) (hnew : new ∈ g.live) (hold : old ∉ S)
    (hout : new ∉ S) : (Structuring.reroute g old new).core S n = g.core S n := by
  have hshift : ∀ es : List Edge, (shift old new es).filter (inside S) = es.filter (inside S) := by
    intro es
    have hmoved : ((es.filter fun e => decide (e.target = old)).map
        fun e => { e with target := new }).filter (inside S) = [] := by
      refine List.filter_eq_nil_iff.mpr ?_
      intro e he
      obtain ⟨e₀, -, rfl⟩ := List.mem_map.mp he
      simp [inside, hout]
    rw [shift, List.filter_append, hmoved, List.append_nil, List.filter_filter]
    refine List.filter_congr ?_
    intro e _
    by_cases htarget : e.target = old
    · simp [inside, htarget, hold]
    · simp [htarget]
  unfold core
  rw [bare_edges_reroute hg hnew, hshift, ops_reroute, live_reroute]

/-! ### Chains -/

/-- No edge that leaves the part belongs to a chain. -/
structure Unchained (t : Table) (S : List Int) (g : Graph) : Prop where
  label : ∀ e ∈ g.edges, leaves S e = true → ¬ g.isLabel e.source = true
  jump : ∀ e ∈ g.edges, leaves S e = true → g.IsJump t e.source →
    ∀ i, g.ins e.source = [i] → ¬ g.isLabel i.source = true

/-- A vertex that nothing is led to or away from is entered as before. -/
theorem Moved.ins {α : Type} {view : Attrs → α} {f : Int → Int} (h : Moved view f g g') {v : Int}
    (hv : ∀ x, f x = v ↔ x = v) :
    ((g'.ins v).map Edge.source).Perm ((g.ins v).map Edge.source) := by
  have hkept := (h.filter fun p => decide (p.2.2 = v)).map Prod.fst
  rw [List.filter_map, List.filter_map, List.map_map, List.map_map] at hkept
  have hsame : g.edges.filter ((fun p => decide (p.2.2 = v)) ∘ row view f) = g.ins v := by
    refine List.filter_congr ?_
    intro e _
    simp [row, hv]
  rw [hsame] at hkept
  exact hkept

theorem Unchained.reroute (h : Unchained t S g) (hg : g.WellFormed) (hold : g.isLabel old = true)
    (hnew : g.isLabel new = true) (hside : old ∈ S ↔ new ∈ S) :
    Unchained t S (Structuring.reroute g old new) := by
  have hmoved := moved_reroute hg old (mem_live_of_isLabel hnew)
  have hlabel := fun x => isLabel_congr (g := Structuring.reroute g old new) live_reroute ops_reroute x
  have hleft : ∀ e ∈ (Structuring.reroute g old new).edges, leaves S e = true →
      ∃ e₀ ∈ g.edges, leaves S e₀ = true ∧ e₀.source = e.source := by
    intro e he hleaves
    obtain ⟨e₀, he₀, hsource, -, hled⟩ := hmoved.mem_of_mem he
    rw [leaves_iff, ← hsource, ← hled, lead_mem_iff hside] at hleaves
    exact ⟨e₀, he₀, leaves_iff.mpr hleaves, hsource⟩
  refine ⟨?_, ?_⟩
  · intro e he hleaves
    obtain ⟨e₀, he₀, hleaves₀, hsource⟩ := hleft e he hleaves
    rw [hlabel, ← hsource]
    exact h.label e₀ he₀ hleaves₀
  · rintro e he hleaves ⟨op, hop, hclass⟩ i hins
    obtain ⟨e₀, he₀, hleaves₀, hsource⟩ := hleft e he hleaves
    rw [op?_congr live_reroute ops_reroute, ← hsource] at hop
    have hjump : g.IsJump t e₀.source := ⟨op, hop, hclass⟩
    -- edges are led from a label to a label, and a jump is neither
    have hfixed : ∀ x, lead [(old, new)] x = e₀.source ↔ x = e₀.source := by
      intro x
      by_cases hx : x = old
      · subst hx
        have hne : new ≠ e₀.source := fun heq => hjump.not_isLabel (heq ▸ hnew)
        have hne' : x ≠ e₀.source := fun heq => hjump.not_isLabel (heq ▸ hold)
        simp [lead, hne, hne']
      · simp [lead, hx]
    have hperm := hmoved.ins hfixed
    rw [hsource, hins, List.map_singleton, List.singleton_perm, eq_comm, List.map_eq_singleton_iff]
      at hperm
    obtain ⟨i₀, hins₀, hfrom⟩ := hperm
    rw [hlabel, ← hfrom]
    exact h.jump e₀ he₀ hleaves₀ hjump i₀ (hsource ▸ hins₀)

theorem isLabel_core (hS : ∀ y ∈ S, 0 ≤ y ∧ y < n) (hx : x ∈ S) :
    (g.core S n).isLabel x = g.isLabel x :=
  any_op?_core (fun _ => rfl) hS hx

/-- A chain of the part is a chain of its core. -/
theorem chain?_core (hS : ∀ y ∈ S, 0 ≤ y ∧ y < n) (hs : Sealed S g) (hu : Unchained t S g)
    (hx : x ∈ S) : (g.core S n).chain? t x = g.chain? t x := by
  have hjump : ((g.core S n).op? x).any (t.classify · = .jump) =
      (g.op? x).any (t.classify · = .jump) := any_op?_core (fun _ => rfl) hS hx
  have hfrom : ∀ i ∈ g.ins x, i.source ∈ S := by
    intro i hi
    obtain ⟨hedge, rfl⟩ := mem_ins.mp hi
    exact hs.inward i hedge hx
  by_cases hin : ∀ e ∈ g.outs x, e.target ∈ S
  · unfold chain?
    rw [hjump, ins_core hs hx, outs_core_of_forall hx hin]
    rcases hins : g.ins x with _ | ⟨i, _ | ⟨i', is⟩⟩
    · rfl
    · rcases houts : g.outs x with _ | ⟨o, _ | ⟨o', os⟩⟩
      · rfl
      · have hi := hfrom i (hins ▸ List.mem_singleton_self i)
        have ho := hin o (houts ▸ List.mem_singleton_self o)
        simp [isLabel_core hS hi, isLabel_core hS ho]
      · rfl
    · rfl
  · -- the jump has an edge that leaves, and is in no chain
    push Not at hin
    obtain ⟨e, he, hout⟩ := hin
    obtain ⟨hedge, rfl⟩ := mem_outs.mp he
    have hleaves := leaves_iff.mpr ⟨hx, hout⟩
    have hnone : g.chain? t e.source = none := by
      refine Option.eq_none_iff_forall_ne_some.mpr ?_
      intro c hc
      obtain ⟨-, hj, hlabel, -, -, i, o, hins, -, hsource, -⟩ := chain?_eq_some hc
      exact hu.jump e hedge hleaves hj i hins (hsource ▸ hlabel)
    rw [hnone]
    refine Option.eq_none_iff_forall_ne_some.mpr ?_
    intro c hc
    obtain ⟨-, hj, hlabel, -, -, i, o, hins, -, hsource, -⟩ := chain?_eq_some hc
    rw [← isJump_iff, hjump, isJump_iff] at hj
    rw [ins_core hs hx, List.map_eq_singleton_iff] at hins
    obtain ⟨i₀, hins₀, rfl⟩ := hins
    refine hu.jump e hedge hleaves hj i₀ hins₀ ?_
    rw [← isLabel_core hS (hfrom i₀ (hins₀ ▸ List.mem_singleton_self i₀))]
    exact hsource ▸ hlabel

/-- A chain lies inside or outside. -/
theorem chain?_sides (hs : Sealed S g) (hu : Unchained t S g) (h : g.chain? t x = some c) :
    (c.label ∈ S ↔ x ∈ S) ∧ (c.target ∈ S ↔ x ∈ S) := by
  obtain ⟨-, hj, hlabel, -, -, i, o, hins, houts, hsource, htarget⟩ := chain?_eq_some h
  obtain ⟨hi, hix⟩ := mem_ins.mp (hins ▸ List.mem_singleton_self i : i ∈ g.ins x)
  obtain ⟨ho, hox⟩ := mem_outs.mp (houts ▸ List.mem_singleton_self o : o ∈ g.outs x)
  rw [← hsource] at hlabel ⊢
  rw [← htarget]
  refine ⟨⟨?_, ?_⟩, ⟨?_, ?_⟩⟩
  · intro hmem
    by_contra hx
    exact hu.label i hi (leaves_iff.mpr ⟨hmem, hix ▸ hx⟩) hlabel
  · intro hx
    exact hs.inward i hi (hix ▸ hx)
  · intro hmem
    exact hox ▸ hs.inward o ho hmem
  · intro hx
    by_contra hout
    exact hu.jump o ho (leaves_iff.mpr ⟨hox ▸ hx, hout⟩) (hox ▸ hj) i (hox ▸ hins) hlabel

/-- Collapsing the chains of a core. -/
def collapseCore (t : Table) : List Int → Graph → Graph × List Chain
  | [], g => (g, [])
  | v :: rest, g =>
    match g.chain? t v with
    | none => collapseCore t rest g
    | some c =>
      let (g, chains) := collapseCore t rest { g with edges := shift c.label c.target g.edges }
      (g, c :: chains)

/-- Chains are collapsed inside as in the core, whatever is collapsed outside. -/
theorem collapseFrom_core (hS : ∀ y ∈ S, 0 ≤ y ∧ y < n) (vs : List Int) (hg : g.WellFormed)
    (hs : Sealed S g) (hu : Unchained t S g) :
    (collapseFrom t vs g).1.WellFormed ∧ Sealed S (collapseFrom t vs g).1 ∧
      (collapseFrom t vs g).1.core S n =
        (collapseCore t (vs.filter fun x => decide (x ∈ S)) (g.core S n)).1 ∧
      ∀ x ∈ S, x ∈ doomed (collapseFrom t vs g).2 ↔
        x ∈ doomed (collapseCore t (vs.filter fun x => decide (x ∈ S)) (g.core S n)).2 := by
  induction vs generalizing g with
  | nil => exact ⟨hg, hs, rfl, fun _ _ => Iff.rfl⟩
  | cons v vs ih =>
    unfold collapseFrom
    cases hc : g.chain? t v with
    | none =>
      obtain ⟨hwf, hsealed, hcore, hdoomed⟩ := ih hg hs hu
      refine ⟨hwf, hsealed, ?_⟩
      by_cases hv : v ∈ S
      · rw [List.filter_cons_of_pos (by simpa using hv), collapseCore, chain?_core hS hs hu hv, hc]
        exact ⟨hcore, hdoomed⟩
      · rw [List.filter_cons_of_neg (by simpa using hv)]
        exact ⟨hcore, hdoomed⟩
    | some c =>
      obtain ⟨hjump, -, hlabel, htarget, -⟩ := chain?_eq_some hc
      obtain ⟨hlabelIn, htargetIn⟩ := chain?_sides hs hu hc
      have hside : c.label ∈ S ↔ c.target ∈ S := hlabelIn.trans htargetIn.symm
      have hlive := mem_live_of_isLabel htarget
      simp only [redirect_eq_reroute hg]
      obtain ⟨hwf, hsealed, hcore, hdoomed⟩ := ih (hg.reroute c.label c.target)
        (hs.reroute hg hlive hside) (hu.reroute hg hlabel htarget hside)
      refine ⟨hwf, hsealed, ?_⟩
      by_cases hv : v ∈ S
      · rw [core_reroute_inside hg hlive (hlabelIn.mpr hv) (htargetIn.mpr hv)] at hcore hdoomed
        rw [List.filter_cons_of_pos (by simpa using hv), collapseCore, chain?_core hS hs hu hv, hc]
        refine ⟨hcore, ?_⟩
        intro x hx
        simp only [doomed, List.flatMap_cons, List.mem_append]
        exact or_congr_right (hdoomed x hx)
      · have hout : c.label ∉ S := fun hmem => hv (hlabelIn.mp hmem)
        have hout' : c.target ∉ S := fun hmem => hv (htargetIn.mp hmem)
        rw [core_reroute_outside hg hlive hout hout'] at hcore hdoomed
        rw [List.filter_cons_of_neg (by simpa using hv)]
        refine ⟨hcore, ?_⟩
        intro x hx
        have hne : x ∉ [c.jump, c.label] := by
          rw [List.mem_cons, List.mem_singleton, hjump]
          rintro (rfl | rfl)
          · exact hv hx
          · exact hout hx
        simp only [doomed, List.flatMap_cons, List.mem_append, hne, false_or]
        exact hdoomed x hx

/-- Graphs with one core have one core after collapsing. -/
theorem collapse_core_congr (hS : ∀ y ∈ S, 0 ≤ y ∧ y < n) (hg : g.WellFormed) (hg' : g'.WellFormed)
    (hs : Sealed S g) (hs' : Sealed S g') (hu : Unchained t S g) (hu' : Unchained t S g')
    (hcore : g.core S n = g'.core S n) :
    (g.collapse t).1.core S n = (g'.collapse t).1.core S n := by
  obtain ⟨-, -, hafter, hdoomed⟩ := collapseFrom_core hS g.live hg hs hu
  obtain ⟨-, -, hafter', hdoomed'⟩ := collapseFrom_core hS g'.live hg' hs' hu'
  have hlive : (g.live.filter fun x => decide (x ∈ S)) = g'.live.filter fun x => decide (x ∈ S) :=
    congrArg Graph.live hcore
  rw [← hcore, ← hlive] at hafter' hdoomed'
  show ((collapseFrom t g.live g).1.deleteVertices _).1.core S n =
    ((collapseFrom t g'.live g').1.deleteVertices _).1.core S n
  rw [core_deleteVertices, core_deleteVertices, hafter'.trans hafter.symm]
  exact deleteVertices_core_congr fun x hx => (hdoomed x hx).trans (hdoomed' x hx).symm

theorem Sealed.collapse (hS : ∀ y ∈ S, 0 ≤ y ∧ y < n) (hg : g.WellFormed) (hs : Sealed S g)
    (hu : Unchained t S g) : Sealed S (g.collapse t).1 :=
  (collapseFrom_core hS g.live hg hs hu).2.1.deleteVertices _

end FlowRecovery.Graph

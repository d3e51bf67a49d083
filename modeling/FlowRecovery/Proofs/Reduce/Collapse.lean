import FlowRecovery.Proofs.Flow.Labels
import FlowRecovery.Proofs.Reduce.Contraction

/-! Collapsing jump chains contracts the graph. During the scan the edges into the labels of the chains
found so far lead elsewhere, never to a label of a chain, and each jump of a chain is still entered
from its own label only: edges are led from label to label, so what leads to a jump has led there from
the start. Hence no edge is lost when the chains are deleted, and a cycle of labels and jumps keeps at
least one label. -/

namespace FlowRecovery.Graph

open Relation

variable {t : Table} {g g₀ : Graph} {v : Int} {c : Chain} {done : List Chain}

/-- An unconditional jump stands at `v`. -/
def IsJump (g : Graph) (t : Table) (v : Int) : Prop :=
  ∃ op, g.op? v = some op ∧ t.classify op = .jump

theorem isJump_iff : (g.op? v).any (t.classify · = .jump) = true ↔ g.IsJump t v := by
  rw [Option.any_eq_true]
  simp [IsJump]

theorem not_isLabel_of_classify {op : Operation} (hop : g.op? v = some op)
    (hclass : t.classify op ≠ .label) : ¬ g.isLabel v = true := by
  intro hlabel
  rw [isLabel, hop, Option.any_some, Operation.isLabel, Operation.label?] at hlabel
  cases haction : op.action with
  | plain root => simp [haction] at hlabel
  | label id => simp [Table.classify, haction] at hclass
  | labelJump root target => simp [haction] at hlabel

theorem IsJump.not_isLabel (h : g.IsJump t v) : ¬ g.isLabel v = true := by
  obtain ⟨op, hop, hclass⟩ := h
  exact not_isLabel_of_classify hop (t := t) (by simp [hclass])

theorem mem_live_of_isLabel (h : g.isLabel v = true) : v ∈ g.live := by
  obtain ⟨op, hop, -⟩ := (Option.any_eq_true _ _).mp h
  exact mem_live_of_op? hop

theorem op?_congr (hlive : g.live = g₀.live) (hops : g.ops = g₀.ops) (v : Int) :
    g.op? v = g₀.op? v := by
  rw [op?, op?, has, has, hlive, hops]

theorem isLabel_congr (hlive : g.live = g₀.live) (hops : g.ops = g₀.ops) (v : Int) :
    g.isLabel v = g₀.isLabel v := by
  rw [isLabel, isLabel, op?_congr hlive hops]

theorem chain?_eq_some (h : g.chain? t v = some c) :
    c.jump = v ∧ g.IsJump t v ∧ g.isLabel c.label = true ∧ g.isLabel c.target = true ∧
      c.target ≠ c.label ∧ ∃ i o, g.ins v = [i] ∧ g.outs v = [o] ∧ i.source = c.label ∧
        o.target = c.target := by
  unfold chain? at h
  split_ifs at h with hjump
  split at h
  · next i o hins houts =>
    split_ifs at h with hends
    obtain rfl := Option.some.inj h
    simp only [Bool.and_eq_true, bne_iff_ne, ne_eq] at hends
    exact ⟨rfl, isJump_iff.mp hjump, hends.1.1, hends.2, hends.1.2, i, o, hins, houts, rfl, rfl⟩
  · simp at h

/-- The chain stands in `g`: only its label leads to its jump, and the label to nothing else. -/
structure Chain.StandsIn (t : Table) (g : Graph) (c : Chain) : Prop where
  jump : g.IsJump t c.jump
  label : g.isLabel c.label = true
  target : g.isLabel c.target = true
  into : ∀ e ∈ g.edges, e.target = c.jump → e.source = c.label
  enter : ∃ i, g.outs c.label = [i] ∧ i.target = c.jump
  leave : ∃ o, g.outs c.jump = [o]

/-- The moves that collapsing the chains makes. -/
def moves (chains : List Chain) : List (Int × Int) := chains.map fun c => (c.label, c.target)

theorem moves_concat : moves (done ++ [c]) = moves done ++ [(c.label, c.target)] := by
  simp [moves]

theorem mem_doomed {x : Int} : x ∈ doomed done ↔ ∃ c ∈ done, x = c.jump ∨ x = c.label := by
  simp [doomed]

theorem mem_doomed_concat {x : Int} :
    x ∈ doomed (done ++ [c]) ↔ x ∈ doomed done ∨ x = c.jump ∨ x = c.label := by
  simp [doomed]

/-- The scan of `g₀` has collapsed the chains `done` and come to `g`. -/
structure Collapsing (t : Table) (g₀ : Graph) (done : List Chain) (g : Graph) : Prop where
  wellFormed : g.WellFormed
  live : g.live = g₀.live
  ops : g.ops = g₀.ops
  stands : ∀ c ∈ done, c.StandsIn t g₀
  moved : Moved id (lead (moves done)) g₀ g
  settled : Settled (moves done)
  lands : ∀ c ∈ done, ∀ o ∈ g₀.outs c.jump, lead (moves done) o.target = lead (moves done) c.label
  path : ∀ x, ReflTransGen (g₀.PassesOn (· ∈ doomed done)) x (lead (moves done) x)

namespace Collapsing

theorem start (hg : g.WellFormed) : Collapsing t g [] g where
  wellFormed := hg
  live := rfl
  ops := rfl
  stands := by simp
  moved := Moved.refl g
  settled := by simp [Settled, moves]
  lands := by simp
  path _ := ReflTransGen.refl

/-- What has been moved has been moved to a label. -/
theorem lead_eq_or_isLabel (h : Collapsing t g₀ done g) (x : Int) :
    lead (moves done) x = x ∨ g₀.isLabel (lead (moves done) x) = true := by
  refine (lead_eq_or_mem (moves done)).imp_right ?_
  intro hmem
  obtain ⟨m, hm, heq⟩ := List.mem_map.mp hmem
  obtain ⟨c, hc, rfl⟩ := List.mem_map.mp hm
  rw [← heq]
  exact (h.stands c hc).target

theorem eq_of_lead_eq (h : Collapsing t g₀ done g) {x : Int} (hx : lead (moves done) x = v)
    (hv : ¬ g₀.isLabel v = true) : x = v := by
  rcases h.lead_eq_or_isLabel x with heq | hlabel
  · rw [← hx, heq]
  · exact absurd (hx ▸ hlabel) hv

theorem mem_fst_moves {x : Int} : x ∈ (moves done).map Prod.fst ↔ ∃ c ∈ done, c.label = x := by
  simp [moves]

theorem lead_of_not_isLabel (h : Collapsing t g₀ done g) (hv : ¬ g₀.isLabel v = true) :
    lead (moves done) v = v := by
  refine lead_of_not_mem ?_
  rw [mem_fst_moves]
  rintro ⟨c, hc, rfl⟩
  exact hv (h.stands c hc).label

section Step

variable (h : Collapsing t g₀ done g) (hfalls : ∀ l, g₀.isLabel l = true → g₀.FallsOn l)
  (hc : g.chain? t v = some c)

include h hc

theorem isJump_of_chain? : g₀.IsJump t v := by
  obtain ⟨-, ⟨op, hop, hclass⟩, -⟩ := chain?_eq_some hc
  exact ⟨op, by rw [← op?_congr h.live h.ops, hop], hclass⟩

/-- The jump of a chain was entered from the label in the first graph as well. -/
theorem exists_enter : ∃ i₀ ∈ g₀.outs c.label, i₀.target = v := by
  obtain ⟨-, -, -, -, -, i, o, hins, -, hsource, -⟩ := chain?_eq_some hc
  obtain ⟨hi, htarget⟩ := mem_ins.mp (hins ▸ List.mem_singleton_self i : i ∈ g.ins v)
  obtain ⟨i₀, hi₀, hfrom, -, hled⟩ := h.moved.mem_of_mem hi
  refine ⟨i₀, mem_outs.mpr ⟨hi₀, hfrom.trans hsource⟩, ?_⟩
  exact h.eq_of_lead_eq (hled.trans htarget) (h.isJump_of_chain? hc).not_isLabel

theorem exists_leave : ∃ o₀, g₀.outs v = [o₀] ∧ lead (moves done) o₀.target = c.target := by
  obtain ⟨-, -, -, -, -, i, o, -, houts, -, htarget⟩ := chain?_eq_some hc
  obtain ⟨o₀, ho₀, hled⟩ := h.moved.exists_outs_eq_singleton houts
  exact ⟨o₀, ho₀, hled.trans htarget⟩

/-- The label of a new chain is not the label of an earlier one: it leads to its own jump only. -/
theorem label_not_mem (hv : v ∉ done.map Chain.jump) :
    c.label ∉ (moves done).map Prod.fst := by
  rw [mem_fst_moves]
  rintro ⟨d, hd, hlabel⟩
  obtain ⟨i, hi, hjump⟩ := (h.stands d hd).enter
  obtain ⟨i₀, hi₀, hi₀v⟩ := h.exists_enter hc
  rw [← hlabel, hi, List.mem_singleton] at hi₀
  refine hv (List.mem_map.mpr ⟨d, hd, ?_⟩)
  rw [← hjump, ← hi₀, hi₀v]

include hfalls

theorem standsIn_of_chain? : c.StandsIn t g₀ := by
  obtain ⟨hv, -, hlabel, htarget, -, i, o, hins, -, hsource, -⟩ := chain?_eq_some hc
  have hjump := h.isJump_of_chain? hc
  obtain ⟨i₀, hi₀, hi₀v⟩ := h.exists_enter hc
  obtain ⟨o₀, ho₀, -⟩ := h.exists_leave hc
  rw [isLabel_congr h.live h.ops] at hlabel htarget
  refine ⟨hv ▸ hjump, hlabel, htarget, ?_, ⟨i₀, ?_, hi₀v.trans hv.symm⟩, ⟨o₀, hv ▸ ho₀⟩⟩
  · intro e he hev
    obtain ⟨e', he', hfrom, -, hto⟩ := h.moved.exists_mem he
    have hmem : e' ∈ g.ins v := by
      refine mem_ins.mpr ⟨he', ?_⟩
      rw [hto, hev, hv]
      exact h.lead_of_not_isLabel hjump.not_isLabel
    rw [hins, List.mem_singleton] at hmem
    rw [← hfrom, hmem, hsource]
  · have hfew := (hfalls c.label hlabel).few
    have hpos := List.length_pos_of_mem hi₀
    obtain ⟨i₁, hi₁⟩ := List.length_eq_one_iff.mp (Nat.le_antisymm hfew hpos)
    rw [hi₁, List.mem_singleton] at hi₀
    rw [hi₁, hi₀]

/-- The new chain leads from its label to its target. -/
theorem path_of_chain? :
    ReflTransGen (g₀.PassesOn (· ∈ doomed (done ++ [c]))) c.label c.target := by
  have hstands := h.standsIn_of_chain? hfalls hc
  obtain ⟨i₀, hi₀, hi₀v⟩ := hstands.enter
  obtain ⟨o₀, ho₀, hled⟩ := h.exists_leave hc
  have hcv : c.jump = v := (chain?_eq_some hc).1
  have hi := mem_outs.mp (hi₀ ▸ List.mem_singleton_self i₀ : i₀ ∈ g₀.outs c.label)
  have ho := mem_outs.mp (ho₀ ▸ List.mem_singleton_self o₀ : o₀ ∈ g₀.outs v)
  have hgrow : ∀ x, x ∈ doomed done → x ∈ doomed (done ++ [c]) :=
    fun _ hx => mem_doomed_concat.mpr (Or.inl hx)
  have hrest := PassesOn.mono hgrow (h.path o₀.target)
  rw [hled] at hrest
  have hjump : g₀.PassesOn (· ∈ doomed (done ++ [c])) c.jump o₀.target :=
    ⟨mem_doomed_concat.mpr (Or.inr (Or.inl rfl)), o₀, ho.1, ho.2.trans hcv.symm, rfl⟩
  have hlabel : g₀.PassesOn (· ∈ doomed (done ++ [c])) c.label c.jump :=
    ⟨mem_doomed_concat.mpr (Or.inr (Or.inr rfl)), i₀, hi.1, hi.2, hi₀v⟩
  exact (hrest.head hjump).head hlabel

/-- One more chain. -/
theorem step (hv : v ∉ done.map Chain.jump) :
    Collapsing t g₀ (done ++ [c]) (g.redirect c.label c.target) := by
  obtain ⟨hcv, -, -, hlabel, hne, -⟩ := chain?_eq_some hc
  obtain ⟨o₀, ho₀, hled⟩ := h.exists_leave hc
  have hfresh := h.label_not_mem hc hv
  rw [redirect_eq_reroute h.wellFormed]
  refine ⟨h.wellFormed.reroute _ _, live_reroute.trans h.live, ops_reroute.trans h.ops, ?_, ?_, ?_,
    ?_, ?_⟩
  · intro d hd
    rcases List.mem_append.mp hd with hd | hd
    · exact h.stands d hd
    · rw [List.mem_singleton.mp hd]
      exact h.standsIn_of_chain? hfalls hc
  · rw [moves_concat]
    exact h.moved.reroute h.wellFormed (mem_live_of_isLabel hlabel)
  · rw [moves_concat]
    exact h.settled.concat (hled ▸ h.settled o₀.target) hne
  · intro d hd o ho
    rw [moves_concat, lead_append, lead_append]
    rcases List.mem_append.mp hd with hd | hd
    · rw [h.lands d hd o ho]
    · rw [List.mem_singleton.mp hd, hcv, ho₀, List.mem_singleton] at ho
      rw [List.mem_singleton.mp hd, ho, hled, lead_of_not_mem hfresh]
      simp [lead, hne]
  · rw [moves_concat]
    exact path_lead_concat (fun _ _ hstep => ⟨mem_doomed_concat.mpr (Or.inl hstep.1), hstep.2⟩)
      h.path (h.path_of_chain? hfalls hc)

end Step

/-! ### Deleting the chains -/

/-- Where `x` comes to once the chains are deleted: a jump goes with its label. -/
def landing (done : List Chain) (x : Int) : Int :=
  match done.find? (·.jump = x) with
  | some c => lead (moves done) c.label
  | none => lead (moves done) x

theorem landing_of_ne {x : Int} (hx : ∀ c ∈ done, c.jump ≠ x) :
    landing done x = lead (moves done) x := by
  have hnone : done.find? (·.jump = x) = none := by simpa using hx
  rw [landing, hnone]

/-- Two chains with one jump have one label. -/
theorem landing_jump (h : Collapsing t g₀ done g) (hc : c ∈ done) :
    landing done c.jump = lead (moves done) c.label := by
  cases hfind : done.find? (·.jump = c.jump) with
  | none => simpa using List.find?_eq_none.mp hfind c hc
  | some d =>
    have hd : d.jump = c.jump := by simpa using List.find?_some hfind
    obtain ⟨i, hi, htarget⟩ := (h.stands c hc).enter
    have hmem := mem_outs.mp (hi ▸ List.mem_singleton_self i : i ∈ g₀.outs c.label)
    have hlabel : i.source = d.label :=
      (h.stands d (List.mem_of_find?_eq_some hfind)).into i hmem.1 (htarget.trans hd.symm)
    rw [landing, hfind]
    simp only
    rw [← hlabel, hmem.2]

theorem landing_label (h : Collapsing t g₀ done g) {x : Int} (hx : g₀.isLabel x = true) :
    landing done x = lead (moves done) x := by
  refine landing_of_ne ?_
  rintro c hc rfl
  exact (h.stands c hc).jump.not_isLabel hx

theorem isLabel_lead (h : Collapsing t g₀ done g) {x : Int} (hx : g₀.isLabel x = true) :
    g₀.isLabel (lead (moves done) x) = true := by
  rcases h.lead_eq_or_isLabel x with heq | hlabel
  · rw [heq]
    exact hx
  · exact hlabel

theorem lead_not_mem_doomed (h : Collapsing t g₀ done g) {x : Int}
    (hx : ∀ c ∈ done, c.jump ≠ x) : lead (moves done) x ∉ doomed done := by
  rw [mem_doomed]
  rintro ⟨c, hc, hjump | hlabel⟩
  · have heq := h.eq_of_lead_eq hjump (h.stands c hc).jump.not_isLabel
    exact hx c hc heq.symm
  · exact h.settled x (mem_fst_moves.mpr ⟨c, hc, hlabel.symm⟩)

/-- The jump of a chain does not lead to another jump. -/
theorem landing_leave (h : Collapsing t g₀ done g) (hc : c ∈ done) {o : Edge}
    (ho : o ∈ g₀.outs c.jump) : landing done o.target = lead (moves done) c.label := by
  rw [← h.lands c hc o ho]
  refine landing_of_ne ?_
  intro d hd heq
  have hlabel := h.isLabel_lead (h.stands c hc).label
  rw [← h.lands c hc o ho, ← heq, h.lead_of_not_isLabel (h.stands d hd).jump.not_isLabel] at hlabel
  exact (h.stands d hd).jump.not_isLabel hlabel

theorem exists_leave_of_mem (h : Collapsing t g₀ done g) (hc : c ∈ done) :
    ∃ o, g₀.outs c.jump = [o] ∧ landing done o.target = landing done c.jump := by
  obtain ⟨o, ho⟩ := (h.stands c hc).leave
  refine ⟨o, ho, ?_⟩
  rw [h.landing_leave hc (ho ▸ List.mem_singleton_self o), h.landing_jump hc]

/-- A deleted vertex has one edge, and comes to where that edge leads. -/
theorem exists_outs_eq (h : Collapsing t g₀ done g) {x : Int} (hx : x ∈ doomed done) :
    ∃ e, g₀.outs x = [e] ∧ landing done e.target = landing done x := by
  obtain ⟨c, hc, rfl | rfl⟩ := mem_doomed.mp hx
  · exact h.exists_leave_of_mem hc
  · obtain ⟨i, hi, htarget⟩ := (h.stands c hc).enter
    refine ⟨i, hi, ?_⟩
    rw [htarget, h.landing_jump hc, h.landing_label (h.stands c hc).label]

theorem landing_mem (h : Collapsing t g₀ done g) {x : Int} (hx : x ∈ g₀.live) :
    landing done x ∈ g₀.live ∧ landing done x ∉ doomed done := by
  by_cases hjump : ∃ c ∈ done, c.jump = x
  · obtain ⟨c, hc, rfl⟩ := hjump
    have hlabel := (h.stands c hc).label
    rw [h.landing_jump hc]
    refine ⟨mem_live_of_isLabel (h.isLabel_lead hlabel), h.lead_not_mem_doomed ?_⟩
    intro d hd heq
    exact (h.stands d hd).jump.not_isLabel (heq ▸ hlabel)
  · have hne : ∀ c ∈ done, c.jump ≠ x := fun c hc heq => hjump ⟨c, hc, heq⟩
    rw [landing_of_ne hne]
    refine ⟨?_, h.lead_not_mem_doomed hne⟩
    rcases h.lead_eq_or_isLabel x with heq | hlabel
    · rw [heq]
      exact hx
    · exact mem_live_of_isLabel hlabel

theorem path_landing (h : Collapsing t g₀ done g) (x : Int) :
    ReflTransGen (g₀.PassesOn (· ∈ doomed done)) x (landing done x) := by
  by_cases hjump : ∃ c ∈ done, c.jump = x
  · obtain ⟨c, hc, rfl⟩ := hjump
    obtain ⟨o, ho⟩ := (h.stands c hc).leave
    have hmem : o ∈ g₀.outs c.jump := ho ▸ List.mem_singleton_self o
    have hrest := h.path o.target
    rw [h.lands c hc o hmem] at hrest
    rw [h.landing_jump hc]
    refine hrest.head ⟨mem_doomed.mpr ⟨c, hc, Or.inl rfl⟩, o, ?_⟩
    exact ⟨(mem_outs.mp hmem).1, (mem_outs.mp hmem).2, rfl⟩
  · rw [landing_of_ne fun c hc heq => hjump ⟨c, hc, heq⟩]
    exact h.path x

/-- An edge into the jump of a chain leaves the label of the chain. -/
theorem jump_ne_target (h : Collapsing t g₀ done g) {e : Edge} (he : e ∈ g₀.edges)
    (hsource : e.source ∉ doomed done) : ∀ c ∈ done, c.jump ≠ e.target := by
  intro c hc heq
  refine hsource (mem_doomed.mpr ⟨c, hc, Or.inr ?_⟩)
  exact (h.stands c hc).into e he heq.symm

theorem contraction (h : Collapsing t g₀ done g) (hg : g₀.WellFormed) :
    Contraction id g₀ (g.deleteVertices (doomed done)).1 (landing done) := by
  refine contraction_deleteVertices hg h.live h.moved ?_ (fun x hx => h.landing_mem hx) ?_
    h.path_landing ?_
  · intro x hx
    have hne : ∀ c ∈ done, c.jump ≠ x :=
      fun c hc heq => hx (mem_doomed.mpr ⟨c, hc, Or.inl heq.symm⟩)
    rw [landing_of_ne hne]
    refine lead_of_not_mem ?_
    rw [mem_fst_moves]
    rintro ⟨c, hc, rfl⟩
    exact hx (mem_doomed.mpr ⟨c, hc, Or.inr rfl⟩)
  · intro x hx
    obtain ⟨e, he, hland⟩ := h.exists_outs_eq hx
    exact ⟨e, he ▸ List.mem_singleton_self e, hland⟩
  · intro e he hsource
    exact (landing_of_ne (h.jump_ne_target he hsource)).symm

end Collapsing

/-! ### The scan -/

/-- What each vertex keeps, one that is no chain and the jump of a chain, the scan of the vertices `vs`
keeps. -/
theorem collapseFrom_induction {P : List Int → List Chain → Graph → Prop} {seen vs : List Int}
    (hpass : ∀ seen done g v, g.chain? t v = none → P seen done g → P (seen ++ [v]) done g)
    (hchain : ∀ seen done g v c, v ∉ seen → g.chain? t v = some c → P seen done g →
      P (seen ++ [v]) (done ++ [c]) (g.redirect c.label c.target))
    (h : P seen done g) (hvs : (seen ++ vs).Nodup) :
    P (seen ++ vs) (done ++ (collapseFrom t vs g).2) (collapseFrom t vs g).1 := by
  induction vs generalizing g done seen with
  | nil => simpa [collapseFrom] using h
  | cons v vs ih =>
    have hv : v ∉ seen := fun hmem => List.disjoint_of_nodup_append hvs hmem (List.mem_cons_self ..)
    rw [List.append_cons] at hvs ⊢
    unfold collapseFrom
    cases hc : g.chain? t v with
    | none => exact ih (hpass seen done g v hc h) hvs
    | some c => simpa using ih (hchain seen done g v c hv hc h) hvs

/-- The scan of `g₀` has taken in the vertices `seen`; the jumps of the chains `done` are among them, in
their order. -/
structure Scanning (t : Table) (g₀ : Graph) (seen : List Int) (done : List Chain) (g : Graph) : Prop
    extends Collapsing t g₀ done g where
  jumps : (done.map Chain.jump).Sublist seen

namespace Scanning

variable {seen : List Int}

theorem start (hg : g.WellFormed) : Scanning t g [] [] g :=
  ⟨Collapsing.start hg, List.Sublist.refl []⟩

theorem pass (h : Scanning t g₀ seen done g) : Scanning t g₀ (seen ++ [v]) done g :=
  ⟨h.toCollapsing, h.jumps.trans (List.sublist_append_left seen [v])⟩

theorem chain (h : Scanning t g₀ seen done g) (hfalls : ∀ l, g₀.isLabel l = true → g₀.FallsOn l)
    (hv : v ∉ seen) (hc : g.chain? t v = some c) :
    Scanning t g₀ (seen ++ [v]) (done ++ [c]) (g.redirect c.label c.target) := by
  refine ⟨h.step hfalls hc fun hmem => hv (h.jumps.subset hmem), ?_⟩
  rw [List.map_append, List.map_singleton, (chain?_eq_some hc).1]
  exact h.jumps.append_right [v]

end Scanning

theorem scanning_collapseFrom (hg : g.WellFormed)
    (hfalls : ∀ l, g.isLabel l = true → g.FallsOn l) :
    Scanning t g g.live (collapseFrom t g.live g).2 (collapseFrom t g.live g).1 :=
  collapseFrom_induction (P := Scanning t g) (fun _ _ _ _ _ h => h.pass)
    (fun _ _ _ _ _ hv hc h => h.chain hfalls hv hc) (Scanning.start hg) hg.live_nodup

theorem exists_collapsing (hg : g.WellFormed) (hfalls : ∀ l, g.isLabel l = true → g.FallsOn l) :
    ∃ done g', Collapsing t g done g' ∧
      (g.collapse t).1 = (g'.deleteVertices (doomed done)).1 :=
  ⟨_, _, (scanning_collapseFrom hg hfalls).toCollapsing, rfl⟩

section Built

variable {r : Routine} {stats : BuildStats}

/-- A built graph is in good order, and control leaves its labels in one way only. -/
theorem wellFormed_of_build (h : r.build t = .ok (g, stats)) :
    g.WellFormed ∧ ∀ l, g.isLabel l = true → g.FallsOn l := by
  rcases Routine.build_eq_ok h with ⟨hops, rfl, rfl⟩ | ⟨labels, w, hb⟩
  · refine ⟨WellFormed.ofOps [], ?_⟩
    intro l hl
    exact .of_outs_eq_nil rfl
  · exact ⟨hb.wellFormed, fun l hl => hb.fallsOn hl⟩

/-- Collapsing the jump chains of a built graph contracts it exactly. Every deleted vertex has one
edge, along these edges it comes to a vertex that is left, and the edges that are left lead, with their
attributes, where their targets come to. -/
theorem collapse_contracts (h : r.build t = .ok (g, stats)) :
    ∃ res : Int → Int, Contraction id g (g.collapse t).1 res ∧
      ∀ x, Removed g (g.collapse t).1 x → ∃ e, g.outs x = [e] := by
  obtain ⟨hg, hfalls⟩ := wellFormed_of_build h
  obtain ⟨done, g', hdone, heq⟩ := exists_collapsing hg hfalls (t := t)
  rw [heq]
  refine ⟨Collapsing.landing done, hdone.contraction hg, ?_⟩
  intro x hx
  obtain ⟨e, he, -⟩ := hdone.exists_outs_eq (mem_of_removed hdone.live hx)
  exact ⟨e, he⟩

/-- Two chains, of which the first leads to the second and stands before it. -/
def backChains : Routine :=
  { id := 1
    ops :=
      [.labelJump { code := { name := "BranchValue" } } ⟨1, 1⟩,
        .plain { code := { name := "Return" } }, .label 1,
        .labelJump { code := { name := "Jump" } } ⟨1, 3⟩, .label 2,
        .plain { code := { name := "Return" } }, .label 3,
        .labelJump { code := { name := "Jump" } } ⟨1, 2⟩] }

theorem backChains_collapse_contracts :
    ∃ g stats, backChains.build .default = .ok (g, stats) ∧
      (g.collapse .default).1.live = [0, 1, 4, 5] ∧
      ∃ res : Int → Int, Contraction id g (g.collapse .default).1 res ∧
        ∀ x, Removed g (g.collapse .default).1 x → ∃ e, g.outs x = [e] :=
  ⟨_, _, rfl, rfl, collapse_contracts (r := backChains) rfl⟩

end Built

end FlowRecovery.Graph

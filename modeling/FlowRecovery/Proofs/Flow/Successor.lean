import FlowRecovery.Flow.Successor
import Mathlib.Logic.Basic
import Mathlib.Logic.Relation
import Mathlib.Tactic.SplitIfs

/-! Where control can go, as a relation between positions. The positions of the successors do not
depend on the flow level at which they are asked for; at most one of them is the next position, by
falling through or by holding on, and at most one more is the label that the operation names. -/

namespace FlowRecovery.Routine

open Relation

variable {r : Routine} {labels : LabelIndex} {t : Table}

theorem opAt?_eq_some {p : Int} {op : Operation} (h : r.opAt? p = some op) :
    0 ≤ p ∧ r.ops[p.toNat]? = some op := by
  unfold opAt? at h
  split_ifs at h with hp
  exact ⟨hp, h⟩

/-- Control can go from `p` to `q`. -/
def Leads (r : Routine) (labels : LabelIndex) (t : Table) (p q : Int) : Prop :=
  ∃ level ss, r.successors? labels t p level = some (.ok ss) ∧ ∃ s ∈ ss, s.pos = q

/-- Control that starts at the first operation can come to `p`. -/
def Reached (r : Routine) (labels : LabelIndex) (t : Table) (p : Int) : Prop :=
  (r.opAt? 0).isSome ∧ ReflTransGen (r.Leads labels t) 0 p

/-- The position of the label of its own routine that the operation at `p` names. -/
def named? (r : Routine) (labels : LabelIndex) (p : Int) : Option Int :=
  (r.opAt? p).bind fun op => (op.localTarget? r.id).bind labels.find?

/-! ### The list of successors -/

section Successors

variable {op : Operation} {pos : Int} {level : Int64} {ss : List Successor}

/-- The next position stands in front of the named label, behind it or not at all. -/
theorem successorsOf_eq_ok (h : r.successorsOf labels t op pos level = .ok ss) :
    ∃ before after : List Successor,
      (before ++ after = [] ∨ before ++ after = [⟨level, pos + 1⟩]) ∧
      (op.localTarget? r.id = none ∧ ss = before ++ after ∨
        ∃ label target, op.localTarget? r.id = some label ∧ labels.find? label = some target ∧
          ss = before ++ ⟨level + 1, target⟩ :: after) := by
  refine ⟨if fallsThrough t op (r.opAt? (pos + 1)) then [⟨level, pos + 1⟩] else [],
    if holdsOn t op (r.opAt? (pos + 1)) then [⟨level, pos + 1⟩] else [], ?_, ?_⟩
  · unfold holdsOn
    cases fallsThrough t op (r.opAt? (pos + 1))
    · rw [if_neg Bool.false_ne_true, List.nil_append]
      exact (ite_eq_or_eq _ _ _).symm
    · exact Or.inr rfl
  · cases hlocal : op.localTarget? r.id with
    | none =>
      simp only [successorsOf, hlocal] at h
      exact Or.inl ⟨rfl, (Except.ok.inj h).symm⟩
    | some label =>
      cases hfind : labels.find? label with
      | none => simp [successorsOf, hlocal, labelPos, hfind, bind, Except.bind] at h
      | some target =>
        simp only [successorsOf, hlocal, labelPos, hfind, bind, Except.bind] at h
        exact Or.inr ⟨label, target, rfl, hfind, (Except.ok.inj h).symm⟩

theorem length_successorsOf_le (h : r.successorsOf labels t op pos level = .ok ss) :
    ss.length ≤ 2 := by
  obtain ⟨before, after, honward, hss⟩ := successorsOf_eq_ok h
  have hlen : before.length + after.length ≤ 1 := by
    rw [← List.length_append]
    rcases honward with h | h <;> simp [h]
  rcases hss with ⟨-, rfl⟩ | ⟨_, _, -, -, rfl⟩
  · rw [List.length_append]
    omega
  · rw [List.length_append, List.length_cons]
    omega

theorem map_pos_successorsOf (level' : Int64) :
    (r.successorsOf labels t op pos level).map (·.map Successor.pos) =
      (r.successorsOf labels t op pos level').map (·.map Successor.pos) := by
  cases hlocal : op.localTarget? r.id with
  | none =>
    simp only [successorsOf, hlocal, Except.map]
    split_ifs <;> rfl
  | some label =>
    cases hpos : r.labelPos labels label with
    | error f => simp only [successorsOf, hlocal, hpos, bind, Except.bind, Except.map]
    | ok target =>
      simp only [successorsOf, hlocal, hpos, bind, Except.bind, Except.map]
      split_ifs <;> rfl

end Successors

section AtPosition

variable {p : Int} {level : Int64} {ss : List Successor}

theorem successors?_eq_ok (h : r.successors? labels t p level = some (.ok ss)) :
    ∃ op, r.opAt? p = some op ∧ r.successorsOf labels t op p level = .ok ss := by
  obtain ⟨op, hop, hss⟩ := Option.map_eq_some_iff.mp h
  exact ⟨op, hop, hss⟩

/-- A successor is the next position, or the named label at the level above. -/
theorem mem_successors (h : r.successors? labels t p level = some (.ok ss)) {s : Successor}
    (hs : s ∈ ss) :
    s = ⟨level, p + 1⟩ ∨ ∃ target, r.named? labels p = some target ∧ s = ⟨level + 1, target⟩ := by
  obtain ⟨op, hop, hss⟩ := successors?_eq_ok h
  obtain ⟨before, after, honward, hcases⟩ := successorsOf_eq_ok hss
  have hnext : s ∈ before ++ after → s = ⟨level, p + 1⟩ := by
    intro hs
    rcases honward with hnil | hone
    · simp [hnil] at hs
    · simpa [hone] using hs
  rcases hcases with ⟨-, rfl⟩ | ⟨label, target, hlocal, hfind, rfl⟩
  · exact Or.inl (hnext hs)
  · rw [List.mem_append, List.mem_cons] at hs
    rcases hs with hs | rfl | hs
    · exact Or.inl (hnext (List.mem_append_left _ hs))
    · exact Or.inr ⟨target, by simp [named?, hop, hlocal, hfind], rfl⟩
    · exact Or.inl (hnext (List.mem_append_right _ hs))

/-- An operation that does not go on to the next position has at most the named label behind it. -/
theorem length_successors_le_one (h : r.successors? labels t p level = some (.ok ss))
    (hnext : ∀ s ∈ ss, s.pos ≠ p + 1) : ss.length ≤ 1 := by
  obtain ⟨op, -, hss⟩ := successors?_eq_ok h
  obtain ⟨before, after, honward, hcases⟩ := successorsOf_eq_ok hss
  have hsub : ∀ s ∈ before ++ after, s ∈ ss := by
    intro s hs
    rcases hcases with ⟨-, rfl⟩ | ⟨label, target, -, -, rfl⟩
    · exact hs
    · simp only [List.mem_append, List.mem_cons] at hs ⊢
      exact hs.imp_right Or.inr
  have hnil : before ++ after = [] := by
    rcases honward with hnil | hone
    · exact hnil
    · exact absurd rfl (hnext ⟨level, p + 1⟩ (hsub _ (by simp [hone])))
  obtain ⟨rfl, rfl⟩ := List.append_eq_nil_iff.mp hnil
  rcases hcases with ⟨-, rfl⟩ | ⟨label, target, -, -, rfl⟩
  · simp
  · simp

/-- Asking at another level gives the same positions. -/
theorem successors?_at (level' : Int64) (h : r.successors? labels t p level = some (.ok ss)) :
    ∃ ss', r.successors? labels t p level' = some (.ok ss') ∧
      ss'.map Successor.pos = ss.map Successor.pos := by
  obtain ⟨op, hop, hss⟩ := successors?_eq_ok h
  have hmap : (r.successorsOf labels t op p level).map (List.map Successor.pos) =
      (r.successorsOf labels t op p level').map (List.map Successor.pos) :=
    map_pos_successorsOf level'
  rw [hss] at hmap
  cases hss' : r.successorsOf labels t op p level' with
  | error f => simp [hss', Except.map] at hmap
  | ok ss' =>
    rw [hss'] at hmap
    refine ⟨ss', ?_, (Except.ok.inj hmap).symm⟩
    rw [successors?, hop, Option.map_some, hss']

theorem leads_iff (h : r.successors? labels t p level = some (.ok ss)) {q : Int} :
    r.Leads labels t p q ↔ ∃ s ∈ ss, s.pos = q := by
  constructor
  · rintro ⟨level', ss', h', s, hs, rfl⟩
    obtain ⟨ss₁, h₁, hpos⟩ := successors?_at level h'
    obtain rfl : ss₁ = ss := Except.ok.inj (Option.some.inj (h₁.symm.trans h))
    have hmem : s.pos ∈ ss₁.map Successor.pos := hpos ▸ List.mem_map_of_mem hs
    obtain ⟨s₁, hs₁, heq⟩ := List.mem_map.mp hmem
    exact ⟨s₁, hs₁, heq⟩
  · rintro ⟨s, hs, rfl⟩
    exact ⟨level, ss, h, s, hs, rfl⟩

end AtPosition

theorem Reached.next {p q : Int} (h : r.Reached labels t p) (hq : r.Leads labels t p q) :
    r.Reached labels t q :=
  ⟨h.1, h.2.tail hq⟩

/-! ### Labels -/

theorem find?_indexLabels {routine pos : Int} {idx : LabelIndex} {ops : List Operation}
    (h : indexLabels routine pos idx ops = .ok labels) {label q : Int}
    (hq : labels.find? label = some q) :
    idx.find? label = some q ∨
      ∃ (n : Nat) (op : Operation), q = pos + n ∧ ops[n]? = some op ∧ op.label? = some label := by
  induction ops generalizing pos idx with
  | nil =>
    obtain rfl := Except.ok.inj h
    exact Or.inl hq
  | cons op rest ih =>
    have hlater : (∃ (n : Nat) (o : Operation), q = pos + 1 + n ∧ rest[n]? = some o ∧
          o.label? = some label) →
        ∃ (n : Nat) (o : Operation), q = pos + n ∧ (op :: rest)[n]? = some o ∧
          o.label? = some label := by
      rintro ⟨n, o, rfl, ho, hl⟩
      exact ⟨n + 1, o, by omega, by simpa using ho, hl⟩
    unfold indexLabels at h
    split at h
    · exact (ih h).imp_right hlater
    · next own hown =>
      split at h
      · simp at h
      · rcases ih h with hidx | hlat
        · rw [LabelIndex.find?_insert] at hidx
          split_ifs at hidx with hsame
          · subst hsame
            obtain rfl := Option.some.inj hidx
            exact Or.inr ⟨0, op, by simp, rfl, hown⟩
          · exact Or.inl hidx
        · exact Or.inr (hlater hlat)

/-- A label stands where the index says. -/
theorem label_of_find? (h : r.labelIndex = .ok labels) {label q : Int}
    (hq : labels.find? label = some q) : ∃ op, r.opAt? q = some op ∧ op.label? = some label := by
  rcases find?_indexLabels h hq with hnone | ⟨n, op, rfl, hop, hlabel⟩
  · simp [LabelIndex.find?] at hnone
  · exact ⟨op, by simpa [opAt?] using hop, hlabel⟩

theorem isLabel_of_named? (h : r.labelIndex = .ok labels) {p q : Int}
    (hq : r.named? labels p = some q) : ∃ op, r.opAt? q = some op ∧ op.isLabel = true := by
  obtain ⟨op, -, hop⟩ := Option.bind_eq_some_iff.mp hq
  obtain ⟨label, -, hlabel⟩ := Option.bind_eq_some_iff.mp hop
  obtain ⟨op', hop', hown⟩ := label_of_find? h hlabel
  exact ⟨op', hop', by simp [Operation.isLabel, hown]⟩

end FlowRecovery.Routine

import FlowRecovery.Proofs.Text.Escape
import Mathlib.Data.List.Basic

/-! JSON documents read back. The text of a document, with any blanks between its parts, is read back to
the document, whatever follows it that does not go on with a number. Numbers that are not integers are
left out here, since they are kept as they are spelled. -/

namespace FlowRecovery.Json

variable {c : Char} {cs rest : List Char} {fuel : Nat} {s : Spacing} {j : Json}

/-- A document holds for all of a property that each container takes over from its parts. -/
@[induction_eliminator]
theorem ind {motive : Json → Prop} (null : motive null) (bool : ∀ b, motive (bool b))
    (int : ∀ n, motive (int n)) (real : ∀ literal, motive (real literal)) (str : ∀ s, motive (str s))
    (arr : ∀ items, (∀ j ∈ items, motive j) → motive (arr items))
    (obj : ∀ fields, (∀ p ∈ fields, motive p.2) → motive (obj fields)) (j : Json) : motive j := by
  refine @Json.rec motive (fun items => ∀ j ∈ items, motive j) (fun fields => ∀ p ∈ fields, motive p.2)
    (fun p => motive p.2) null bool int real str arr obj ?_ ?_ ?_ ?_ ?_ j
  · simp
  · intro head tail hhead htail
    exact List.forall_mem_cons.mpr ⟨hhead, htail⟩
  · simp
  · intro head tail hhead htail
    exact List.forall_mem_cons.mpr ⟨hhead, htail⟩
  · intro _ _ h
    exact h

/-! ### Documents with integers only -/

mutual

/-- All numbers in the document are integers. -/
def exact : Json → Bool
  | real _ => false
  | arr items => exactItems items
  | obj fields => exactFields fields
  | _ => true

def exactItems : List Json → Bool
  | [] => true
  | j :: rest => j.exact && exactItems rest

def exactFields : List (String × Json) → Bool
  | [] => true
  | (_, j) :: rest => j.exact && exactFields rest

end

@[simp] theorem exact_int (n : Int) : (int n).exact = true := rfl

@[simp] theorem exact_str (text : String) : (str text).exact = true := rfl

/-- Nothing but blanks stands between the parts, and a colon. -/
structure Spacing.Loose (s : Spacing) : Prop where
  unit : ∀ c ∈ s.unit, isBlank c = true
  colon : ∃ blanks, s.colon = ':' :: blanks ∧ ∀ c ∈ blanks, isBlank c = true

end FlowRecovery.Json

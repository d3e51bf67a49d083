import FlowRecovery.Listing.Export
import FlowRecovery.Proofs.Json.ReadBack
import Mathlib.Data.List.Perm.Basic

/-! Operands and the documents that spell them. An operand that is built from null, truth values, integers,
texts, lists and maps whose keys are texts has a document, and the document reads as the same operand. Only
the order in which the entries of a map stand is lost, and a map has none of its own. -/

namespace FlowRecovery.Value

/-! ### Portable operands -/

/-- A property holds of every operand if each container takes it over from its parts. -/
@[induction_eliminator]
theorem ind {motive : Value → Prop} (null : motive null) (bool : ∀ b, motive (bool b))
    (int : ∀ n, motive (int n)) (float : ∀ x, motive (float x)) (str : ∀ s, motive (str s))
    (time : ∀ t, motive (time t)) (list : ∀ items, (∀ v ∈ items, motive v) → motive (list items))
    (map : ∀ entries, (∀ p ∈ entries, motive p.2) → motive (map entries))
    (mixed : ∀ entries, (∀ p ∈ entries, motive p.2) → motive (mixed entries)) (v : Value) : motive v := by
  refine @Value.rec motive (fun items => ∀ v ∈ items, motive v) (fun entries => ∀ p ∈ entries, motive p.2)
    (fun entries => ∀ p ∈ entries, motive p.2) (fun p => motive p.2) (fun p => motive p.2)
    null bool int float str time list map mixed ?_ ?_ ?_ ?_ ?_ ?_ (fun _ _ h => h) (fun _ _ h => h) v
  · simp
  · exact fun _ _ hhead htail => List.forall_mem_cons.mpr ⟨hhead, htail⟩
  · simp
  · exact fun _ _ hhead htail => List.forall_mem_cons.mpr ⟨hhead, htail⟩
  · simp
  · exact fun _ _ hhead htail => List.forall_mem_cons.mpr ⟨hhead, htail⟩

mutual

/-- Built from null, truth values, integers, texts, lists and maps whose keys are texts. -/
def portable : Value → Bool
  | null | bool _ | int _ | str _ => true
  | float _ | time _ | mixed _ => false
  | list items => portableItems items
  | map entries => portableEntries entries

def portableItems : List Value → Bool
  | [] => true
  | v :: rest => v.portable && portableItems rest

def portableEntries : List (String × Value) → Bool
  | [] => true
  | (_, v) :: rest => v.portable && portableEntries rest

end

mutual

/-- The operand that a document spells. -/
def ofJson? : Json → Option Value
  | .null => some null
  | .bool b => some (bool b)
  | .int n => some (int n)
  | .real _ => none
  | .str s => some (str s)
  | .arr items => (ofJsonItems? items).map list
  | .obj fields => (ofJsonFields? fields).map map

def ofJsonItems? : List Json → Option (List Value)
  | [] => some []
  | j :: rest => do some ((← ofJson? j) :: (← ofJsonItems? rest))

def ofJsonFields? : List (String × Json) → Option (List (String × Value))
  | [] => some []
  | (k, j) :: rest => do some ((k, ← ofJson? j) :: (← ofJsonFields? rest))

end

/-- The same operand; the entries of a map may stand in another order. -/
inductive Same : Value → Value → Prop
  | null : Same null null
  | bool (b : Bool) : Same (bool b) (bool b)
  | int (n : Int) : Same (int n) (int n)
  | str (s : String) : Same (str s) (str s)
  | list {items items' : List Value} (h : items.Forall₂ Same items') : Same (list items) (list items')
  | map {entries arranged entries' : List (String × Value)} (hperm : arranged.Perm entries)
      (hkeys : arranged.map Prod.fst = entries'.map Prod.fst)
      (h : (arranged.map Prod.snd).Forall₂ Same (entries'.map Prod.snd)) :
      Same (map entries) (map entries')

/-! ### The order of entries -/

theorem perm_place {α β : Type} (le : α → α → Bool) (k : α) (v : β) (entries : List (α × β)) :
    (place le k v entries).Perm ((k, v) :: entries) := by
  induction entries with
  | nil => exact .refl _
  | cons p entries ih =>
    rw [place]
    split
    · exact (ih.cons p).trans (.swap ..)
    · exact .refl _

theorem perm_sorted {α β : Type} (le : α → α → Bool) (entries : List (α × β)) :
    (sorted le entries).Perm entries := by
  have hfold (out : List (α × β)) :
      (entries.foldl (fun out e => place le e.1 e.2 out) out).Perm (out ++ entries) := by
    induction entries generalizing out with
    | nil => simp
    | cons e entries ih =>
      refine (ih _).trans (((perm_place le e.1 e.2 out).append_right entries).trans ?_)
      exact List.perm_middle.symm
  exact hfold []

/-! ### Documents of operands -/

end FlowRecovery.Value

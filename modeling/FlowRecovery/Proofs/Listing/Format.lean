import FlowRecovery.Listing.Document
import Mathlib.Data.List.Nodup
import Mathlib.Tactic.SplitIfs

/-! Which listings are accepted. The format asks every routine for an id of its own and a known type, and
every entry for exactly one of three shapes: a label and nothing else, an instruction that names a label,
or an instruction by itself. Everything else is refused, with one exception: offset, code and operands of
a label entry are not looked at. So a listing is accepted exactly if it is in the format once these are
dropped. -/

namespace FlowRecovery

/-- A computation with two steps yields a result if both do. -/
theorem exists_bind_eq_ok {α β : Type} {x : Except Fault α} {f : α → Except Fault β} :
    (∃ b, x >>= f = .ok b) ↔ ∃ a, x = .ok a ∧ ∃ b, f a = .ok b := by
  cases x with
  | error e => simp [bind, Except.bind]
  | ok a => simp [bind, Except.bind]

/-! ### The format -/

/-- A name of letters, digits and underscores. -/
def ProperName (name : String) : Prop := name ≠ "" ∧ ∀ c ∈ name.toList, Input.isNameChar c = true

inductive EntryShape where
  | label
  | labelJump
  | plain
deriving DecidableEq, Repr

namespace OpDoc

def HasShape (d : OpDoc) : EntryShape → Prop
  | .label => ∃ id, d = { label := some id }
  | .labelJump =>
    d.label = none ∧ ProperName d.op ∧ ∃ target, d.target = some target ∧ target.label.isSome = true
  | .plain => d.label = none ∧ ProperName d.op ∧ d.target = none

def InFormat (d : OpDoc) : Prop := ∃! shape, d.HasShape shape

/-- No entry has two shapes. -/
theorem inFormat_iff {d : OpDoc} : d.InFormat ↔ ∃ shape, d.HasShape shape := by
  refine ⟨ExistsUnique.exists, ?_⟩
  rintro ⟨shape, hshape⟩
  refine ⟨shape, hshape, ?_⟩
  intro other hother
  cases shape <;> cases other <;> simp only [HasShape] at hshape hother <;> grind

end OpDoc

def routineTypeNames : List String := ["generic", "actor", "object", "performer", "coroutine"]

structure RoutineDoc.InFormat (d : RoutineDoc) : Prop where
  id : d.id.isSome = true
  type : d.type ≠ "" → d.type ∈ routineTypeNames
  ops : ∀ e ∈ d.ops, e.InFormat

structure Document.InFormat (d : Document) : Prop where
  routines : ∀ r ∈ d.routines, r.InFormat
  ids : (d.routines.map (·.id)).Nodup

/-! ### What is not looked at -/

/-- A label entry without the fields that only an instruction has. -/
def OpDoc.bare (d : OpDoc) : OpDoc :=
  if d.label.isSome then { d with offset := 0, code := 0, params := [] } else d

def RoutineDoc.bare (d : RoutineDoc) : RoutineDoc := { d with ops := d.ops.map OpDoc.bare }

def Document.bare (d : Document) : Document := { routines := d.routines.map RoutineDoc.bare }

/-- No label entry carries an offset, a code or operands. -/
def Document.LabelsBare (d : Document) : Prop :=
  ∀ r ∈ d.routines, ∀ e ∈ r.ops, e.label.isSome = true → e.offset = 0 ∧ e.code = 0 ∧ e.params = []

theorem OpDoc.bare_eq_self {d : OpDoc}
    (h : d.label.isSome = true → d.offset = 0 ∧ d.code = 0 ∧ d.params = []) : d.bare = d := by
  unfold bare
  split_ifs with hlabel
  · obtain ⟨hoffset, hcode, hparams⟩ := h hlabel
    obtain ⟨offset, op, code, params, label, target⟩ := d
    simp_all
  · rfl

theorem Document.LabelsBare.bare_eq {d : Document} (h : d.LabelsBare) : d.bare = d := by
  have hroutine : ∀ r ∈ d.routines, r.bare = r := by
    intro r hr
    have hops : r.ops.map OpDoc.bare = r.ops := by
      rw [List.map_congr_left fun e he => OpDoc.bare_eq_self (h r hr e he), List.map_id']
    rw [RoutineDoc.bare, hops]
  rw [bare, List.map_congr_left hroutine, List.map_id']

theorem Document.InFormat.labelsBare {d : Document} (h : d.InFormat) : d.LabelsBare := by
  intro r hr e he hlabel
  obtain ⟨shape, hshape⟩ := OpDoc.inFormat_iff.mp ((h.routines r hr).ops e he)
  cases shape with
  | label =>
    obtain ⟨id, rfl⟩ := hshape
    exact ⟨rfl, rfl, rfl⟩
  | labelJump => simp [hshape.1] at hlabel
  | plain => simp [hshape.1] at hlabel

/-! ### Entries -/

theorem Input.exists_checkOpcodeName_iff (name : String) :
    (∃ u, checkOpcodeName (Text.Piece.ofString name) = .ok u) ↔ ProperName name := by
  have hempty : (Text.Piece.ofString name).isEmpty = true ↔ name = "" := by
    simp [Text.Piece.ofString]
  have hfind : (Text.Piece.ofString name).find? (!isNameChar ·.toChar) = none ↔
      ∀ c ∈ name.toList, isNameChar c = true := by
    simp [Text.Piece.ofString]
  unfold checkOpcodeName ProperName
  split_ifs with h
  · simp [hempty.mp h]
  · rw [hempty] at h
    rw [← hfind]
    split
    · next hnone => simp [h, hnone]
    · next hsome => simp [hsome]

namespace OpDoc

theorem exists_operation_of_label {d : OpDoc} {id : Int} (h : d.label = some id) (routine : Int) :
    (∃ op, d.operation routine = .ok op) ↔ d.op = "" ∧ d.target = none := by
  simp only [operation, h]
  split_ifs with hmore
  · simp only [exists_false, false_iff]
    rintro ⟨hop, htarget⟩
    simp [hop, htarget] at hmore
  · simpa using hmore

theorem exists_operation_of_instruction {d : OpDoc} (h : d.label = none) (routine : Int) :
    (∃ op, d.operation routine = .ok op) ↔
      ProperName d.op ∧ ∀ target, d.target = some target → target.label.isSome = true := by
  simp only [operation, h, exists_bind_eq_ok, ← Input.exists_checkOpcodeName_iff]
  cases htarget : d.target with
  | none => simp
  | some target => cases hlabel : target.label <;> simp [hlabel]

/-- An entry stands for an operation exactly if it is in the format once it is bare. -/
theorem exists_operation_iff (d : OpDoc) (routine : Int) :
    (∃ op, d.operation routine = .ok op) ↔ d.bare.InFormat := by
  obtain ⟨offset, op, code, params, label, target⟩ := d
  rw [inFormat_iff]
  cases label with
  | some id =>
    rw [exists_operation_of_label rfl]
    constructor
    · rintro ⟨rfl, rfl⟩
      exact ⟨.label, id, rfl⟩
    · rintro ⟨shape, hshape⟩
      cases shape <;> simp_all [HasShape, bare]
  | none =>
    rw [exists_operation_of_instruction rfl]
    constructor
    · rintro ⟨hname, htarget⟩
      cases target with
      | none => exact ⟨.plain, rfl, hname, rfl⟩
      | some target => exact ⟨.labelJump, rfl, hname, target, rfl, htarget target rfl⟩
    · rintro ⟨shape, hshape⟩
      cases shape with
      | label => simp [HasShape, bare] at hshape
      | labelJump =>
        obtain ⟨-, hname, found, rfl, hlabel⟩ := hshape
        exact ⟨hname, by simpa using hlabel⟩
      | plain =>
        obtain ⟨-, hname, rfl⟩ := hshape
        exact ⟨hname, by simp⟩

end OpDoc

/-! ### Routines -/

theorem RoutineType.exists_parse_iff (name : String) :
    (∃ t, RoutineType.parse name = .ok t) ↔ name ∈ routineTypeNames := by
  have hnamed : (RoutineType.ofName? name).isSome = true ↔ name ∈ routineTypeNames := by
    simp only [ofName?, named, RoutineType.name, routineTypeNames, List.find?_isSome, List.mem_cons,
      List.not_mem_nil, or_false, exists_eq_or_imp, exists_eq_left, decide_eq_true_eq, eq_comm (b := name)]
  unfold parse
  rw [← hnamed]
  cases ofName? name <;> simp

namespace RoutineDoc

theorem exists_operations_iff (routine : Int) (pos : Nat) (ops : List OpDoc) :
    (∃ found, operations routine pos ops = .ok found) ↔ ∀ e ∈ ops, e.bare.InFormat := by
  induction ops generalizing pos with
  | nil => simp [operations]
  | cons e rest ih =>
    rw [List.forall_mem_cons, ← ih (pos + 1), ← e.exists_operation_iff routine]
    simp only [operations]
    cases e.operation routine with
    | error f => simp
    | ok op => simp [exists_bind_eq_ok]

theorem exists_typeOf_iff (d : RoutineDoc) (id : Int) :
    (∃ t, d.typeOf id = .ok t) ↔ (d.type ≠ "" → d.type ∈ routineTypeNames) := by
  unfold typeOf
  split_ifs with hnone
  · simp [hnone]
  · rw [← RoutineType.exists_parse_iff]
    cases RoutineType.parse d.type <;> simp [hnone]

theorem exists_routine_iff (d : RoutineDoc) (n : Nat) :
    (∃ r, d.routine n = .ok r) ↔ d.bare.InFormat := by
  have hformat : d.bare.InFormat ↔ d.id.isSome = true ∧ (d.type ≠ "" → d.type ∈ routineTypeNames) ∧
      ∀ e ∈ d.ops, e.bare.InFormat :=
    ⟨fun h => ⟨h.id, h.type, fun e he => h.ops _ (List.mem_map_of_mem he)⟩,
      fun ⟨hid, htype, hops⟩ => ⟨hid, htype, List.forall_mem_map.mpr hops⟩⟩
  rw [hformat]
  unfold routine
  cases hid : d.id with
  | none => simp
  | some id =>
    simp only [exists_bind_eq_ok, Except.ok.injEq, exists_eq', and_true, Option.isSome_some, true_and]
    rw [← exists_typeOf_iff d id, ← exists_operations_iff id 0]
    constructor
    · rintro ⟨t, ht, hops⟩
      exact ⟨⟨t, ht⟩, hops⟩
    · rintro ⟨⟨t, ht⟩, hops⟩
      exact ⟨t, ht, hops⟩

theorem id_eq_of_routine {d : RoutineDoc} {n : Nat} {r : Routine} (h : d.routine n = .ok r) :
    d.id = some r.id := by
  unfold routine at h
  split at h
  · simp at h
  · next id hid =>
    cases htype : d.typeOf id <;> cases hops : operations id 0 d.ops <;>
      simp [htype, hops, bind, Except.bind] at h
    rw [hid, ← h]

end RoutineDoc

/-! ### Documents -/

namespace Document

theorem exists_routinesFrom_iff (n : Nat) (seen : List Int) (docs : List RoutineDoc) :
    (∃ rs, routinesFrom n seen docs = .ok rs) ↔
      (∀ d ∈ docs, d.bare.InFormat) ∧ (docs.map (·.id)).Nodup ∧
        ∀ id ∈ seen, some id ∉ docs.map (·.id) := by
  induction docs generalizing n seen with
  | nil => simp [routinesFrom]
  | cons d rest ih =>
    rw [List.forall_mem_cons, ← d.exists_routine_iff n]
    simp only [routinesFrom]
    cases hr : d.routine n with
    | error f => simp [exists_bind_eq_ok]
    | ok r =>
      have hid := RoutineDoc.id_eq_of_routine hr
      simp only [exists_bind_eq_ok, Except.ok.injEq, exists_eq_left', exists_eq', true_and, List.map_cons,
        List.nodup_cons, hid]
      split_ifs with hseen
      · have hmem : r.id ∈ seen := by simpa using hseen
        simp only [exists_false, false_iff]
        rintro ⟨-, -, hfresh⟩
        exact hfresh r.id hmem (List.mem_cons_self ..)
      · have hmem : r.id ∉ seen := by simpa using hseen
        simp only [exists_bind_eq_ok, Except.ok.injEq, exists_eq', and_true, ih]
        grind

/-- A document is accepted exactly if it is in the format once its label entries are bare. -/
theorem exists_read_iff (d : Document) : (∃ rs, d.read = .ok rs) ↔ d.bare.InFormat := by
  have hids : d.bare.routines.map (·.id) = d.routines.map (·.id) := by
    simp [bare, RoutineDoc.bare, Function.comp_def]
  rw [read, exists_routinesFrom_iff]
  constructor
  · rintro ⟨hroutines, hnodup, -⟩
    exact ⟨List.forall_mem_map.mpr hroutines, by rwa [hids]⟩
  · rintro ⟨hroutines, hnodup⟩
    exact ⟨List.forall_mem_map.mp hroutines, by rwa [hids] at hnodup, by simp⟩

/-- Reading accepts a document exactly if it is in the format once offset, code and operands of its label
entries are dropped. So acceptance and the format agree on a document if and only if it is refused or no
label entry carries one of the three. -/
theorem read_accepts_format_iff (d : Document) :
    ((∃ rs, d.read = .ok rs) ↔ d.bare.InFormat) ∧
      (((∃ rs, d.read = .ok rs) ↔ d.InFormat) ↔ ((∃ rs, d.read = .ok rs) → d.LabelsBare)) := by
  have hread := exists_read_iff d
  refine ⟨hread, ?_⟩
  constructor
  · intro hagree haccepted
    exact (hagree.mp haccepted).labelsBare
  · intro hbare
    constructor
    · intro haccepted
      have hformat := hread.mp haccepted
      rwa [(hbare haccepted).bare_eq] at hformat
    · intro hformat
      rwa [hread, hformat.labelsBare.bare_eq]

/-- A label with an offset. -/
def offsetLabel : Document := { routines := [{ id := some 1, ops := [{ label := some 1, offset := 3 }] }] }

/-- The offset is dropped without a word. -/
theorem offsetLabel_accepted :
    offsetLabel.read = .ok [{ id := 1, ops := [.label 1] }] ∧ ¬ offsetLabel.InFormat := by
  refine ⟨rfl, ?_⟩
  intro hformat
  have hbare := hformat.labelsBare _ (List.mem_singleton_self _) _ (List.mem_singleton_self _) rfl
  exact absurd hbare.1 (by decide)

end Document

end FlowRecovery

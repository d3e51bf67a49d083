import FlowRecovery.Command.Run
import Mathlib.Tactic.SplitIfs

/-! What a command fails with, its routines apart. A path, a listing, an opcode table, a set of options or a
result that is not accepted ends the program with status 1: none of these faults is fatal, and none stands for
a cancelled run. This depends neither on what is found at a path nor on how it is decoded. -/

namespace FlowRecovery

variable {α β : Type} {x : Except Fault α} {f : Fault} {c : Code} {m : String}

namespace Fault

theorem exitStatus_eq_one_iff (f : Fault) : f.exitStatus = 1 ↔ f.isCanceled = false ∧ f.fatal = false := by
  unfold exitStatus
  cases f.isCanceled <;> cases f.fatal <;> simp

@[simp] theorem exitStatus_coded (c : Code) (m : String) :
    (coded c m).exitStatus = if c.fatal then 2 else 1 := rfl

theorem exitStatus_codedOver (hc : c.fatal = false) (hf : f.isCanceled = false) :
    (codedOver c m f).exitStatus = 1 :=
  (exitStatus_eq_one_iff _).mpr ⟨hf, hc⟩

end Fault

/-- Whatever it fails with ends the program with status 1. -/
def FailsMildly (x : Except Fault α) : Prop := ∀ f, x = .error f → f.exitStatus = 1

namespace FailsMildly

@[simp] theorem ok (a : α) : FailsMildly (.ok a) := by simp [FailsMildly]

@[simp] theorem error_iff : FailsMildly (.error f : Except Fault α) ↔ f.exitStatus = 1 := by
  simp [FailsMildly]

theorem bind {next : α → Except Fault β} (hx : FailsMildly x) (hnext : ∀ a, FailsMildly (next a)) :
    FailsMildly (x >>= next) := by
  cases x with
  | error f => exact error_iff.mpr (error_iff.mp hx)
  | ok a => exact hnext a

theorem map {next : α → β} (hx : FailsMildly x) : FailsMildly (x.map next) := by
  cases x with
  | error f => exact error_iff.mpr (error_iff.mp hx)
  | ok a => exact .ok _

/-- A layer that adds a message changes nothing. -/
theorem mapError_within (hx : FailsMildly x) : FailsMildly (x.mapError (.within m)) := by
  cases x with
  | error f => exact error_iff.mpr ((Fault.exitStatus_within m f).trans (error_iff.mp hx))
  | ok a => exact .ok _

end FailsMildly

open FailsMildly Fault

/-! ### Input -/

namespace Input

theorem failsMildly_checkPath (path : List Text.Piece) : FailsMildly (checkPath path) := by
  unfold checkPath
  simp only
  split_ifs <;> simp [Code.fatal]

theorem failsMildly_checkListingPath (path : List Text.Piece) : FailsMildly (checkListingPath path) := by
  refine (failsMildly_checkPath path).bind fun _ => ?_
  simp only
  split_ifs <;> simp [Code.fatal]

theorem failsMildly_checkWorkers (n : Int) : FailsMildly (checkWorkers n) := by
  unfold checkWorkers
  split_ifs <;> simp [Code.fatal]

theorem failsMildly_checkOpcodeName (name : List Text.Piece) : FailsMildly (checkOpcodeName name) := by
  unfold checkOpcodeName
  split_ifs
  · simp [Code.fatal]
  · split <;> simp [Code.fatal]

end Input

/-! ### Listings -/

@[simp] theorem exitStatus_invalidListing (m : String) : (invalidListing m).exitStatus = 1 := rfl

theorem RoutineType.failsMildly_parse (s : String) : FailsMildly (parse s) := by
  unfold parse
  split <;> simp [Code.fatal]

theorem OpDoc.failsMildly_operation (d : OpDoc) (routine : Int) : FailsMildly (d.operation routine) := by
  unfold operation
  split
  · split_ifs <;> simp
  · refine (Input.failsMildly_checkOpcodeName _).bind fun _ => ?_
    simp only
    split
    · simp
    · split <;> simp

namespace RoutineDoc

theorem failsMildly_operations (routine : Int) (pos : Nat) (ops : List OpDoc) :
    FailsMildly (operations routine pos ops) := by
  induction ops generalizing pos with
  | nil => exact .ok _
  | cons d rest ih =>
    have hop := d.failsMildly_operation routine
    unfold operations
    split
    · next f hf => exact error_iff.mpr (hop f hf)
    · exact (ih (pos + 1)).bind fun _ => .ok _

theorem failsMildly_typeOf (d : RoutineDoc) (id : Int) : FailsMildly (d.typeOf id) := by
  have htype := RoutineType.failsMildly_parse d.type
  unfold typeOf
  split_ifs
  · exact .ok _
  · split
    · exact .ok _
    · next f hf => exact error_iff.mpr (htype f hf)

theorem failsMildly_routine (d : RoutineDoc) (n : Nat) : FailsMildly (d.routine n) := by
  unfold routine
  split
  · simp
  · next id _ =>
    exact (d.failsMildly_typeOf id).bind fun _ => (failsMildly_operations id 0 d.ops).bind fun _ => .ok _

end RoutineDoc

theorem Document.failsMildly_routinesFrom (n : Nat) (seen : List Int) (docs : List RoutineDoc) :
    FailsMildly (routinesFrom n seen docs) := by
  induction docs generalizing n seen with
  | nil => exact .ok _
  | cons d rest ih =>
    refine (d.failsMildly_routine n).bind fun r => ?_
    split_ifs
    · simp
    · exact (ih (n + 1) (r.id :: seen)).bind fun _ => .ok _

namespace Listing

theorem failsMildly_ofDocument (d : Option Document) : FailsMildly (ofDocument d) := by
  cases d with
  | none => simp [ofDocument, undecodable]
  | some d => exact Document.failsMildly_routinesFrom 0 [] _

theorem failsMildly_ofFile (decode : ByteArray → Option Document) (path : String)
    (found : Except DiskFault ByteArray) : FailsMildly (ofFile decode path found) := by
  cases found with
  | error f =>
    refine error_iff.mpr ?_
    cases f with
    | notFound => exact exitStatus_codedOver rfl rfl
    | notFolder | isFolder | nameTooLong | other => rfl
  | ok bytes => exact (failsMildly_ofDocument _).mapError_within

end Listing

/-! ### Tables and options -/

namespace Table

theorem failsMildly_validate (t : Table) : FailsMildly t.validate := by
  unfold validate
  simp only
  split_ifs
  · simp [Code.fatal]
  · simp [Code.fatal]
  · split <;> simp [Code.fatal]

theorem failsMildly_checked (t : Option Table) : FailsMildly (checked t) := by
  cases t with
  | none => simp [checked, Code.fatal]
  | some t => exact t.failsMildly_validate.map

theorem failsMildly_ofFile (decode : ByteArray → Option Table) (path : String)
    (found : Except DiskFault ByteArray) : FailsMildly (ofFile decode path found) := by
  unfold ofFile
  split
  · exact failsMildly_checked _
  · exact error_iff.mpr (exitStatus_codedOver rfl rfl)
  · exact error_iff.mpr rfl

theorem failsMildly_ofFileOrDefault (decode : ByteArray → Option Table) (path : String)
    (found : Except DiskFault ByteArray) : FailsMildly (ofFileOrDefault decode path found) := by
  have hfile := failsMildly_ofFile decode path found
  unfold ofFileOrDefault
  split
  · next f hf =>
    split_ifs
    · exact .ok _
    · exact error_iff.mpr (hfile f hf)
  · exact hfile

end Table

theorem Options.failsMildly_settings (o : Options) (processors : Nat) :
    FailsMildly (o.settings processors) := by
  refine (Input.failsMildly_checkWorkers o.workers).bind fun _ => ?_
  simp only
  split
  · exact .ok _
  · next t _ => exact t.failsMildly_validate.bind fun _ => .ok _

/-! ### Results -/

namespace Result

theorem failsMildly_textBy (encode : Result → Except String String) (r : Result) :
    FailsMildly (r.textBy encode) := by
  unfold textBy
  cases encode r with
  | error complaint => exact error_iff.mpr rfl
  | ok text => exact .ok _

theorem failsMildly_find (r : Result) (id : Int) : FailsMildly (r.find id) := by
  unfold find
  split
  · exact .ok _
  · exact error_iff.mpr rfl

end Result

end FlowRecovery

import FlowRecovery.Decimal.Binary64
import FlowRecovery.Listing.Document
import FlowRecovery.Text.Utf16
import FlowRecovery.Word
import FlowRecovery.Yaml.Aliasing

/-! Listings as YAML text, of which JSON text is a part. Every field has its place and its type; a
null leaves a field unset, and a null among routines or operations is left out. -/
namespace FlowRecovery

open Yaml (Node)

namespace Document

/-- The entries of a mapping by name. Names are the known ones, each at most once. -/
def fields? (known : List String) : List (Node × Node) → Option (List (String × Node))
  | [] => some []
  | (k, v) :: rest => do
    let name? ← k.name?
    let more ← fields? known rest
    match name? with
    | none => some more
    | some name =>
      if known.contains name && (more.lookup name).isNone then some ((name, v) :: more) else none

/-- A part that may be null, and has to be a mapping otherwise. -/
def record? (known : List String) (n : Node) : Option (Option (List (String × Node))) :=
  match n.target with
  | .map entries => (fields? known entries).map some
  | .scalar tag text =>
    match Yaml.resolve? tag text with
    | some .null => some none
    | _ => none
  | _ => none

/-- Doubles lose their fraction; those beyond the integers of 64 bits become the least one. -/
def intOfFloat? (x : Float) : Option Int :=
  match Decimal.Binary64.ofFloat x with
  | .nan => none
  | .infinite negative => if negative then some (-Word.bound) else none
  | b =>
    match b.trunc? with
    | none => none
    | some n =>
      if Word.bound < n then none
      else if n < -(Word.bound : Int) ∨ n = Word.bound then some (-Word.bound)
      else some n

def int? (n : Node) : Option (Option Int) :=
  match n.target with
  | .scalar tag text =>
    match Yaml.resolve? tag text with
    | some .null => some none
    | some (.int n) => if n < Word.bound then some (some n) else none
    | some (.float x) => (intOfFloat? x).map some
    | _ => none
  | _ => none

def items? (n : Node) : Option (List Node) :=
  match n.target with
  | .seq items => some items
  | .scalar tag text =>
    match Yaml.resolve? tag text with
    | some .null => some []
    | _ => none
  | _ => none

/-- A field of the type that `read` reads; a missing one is as good as null. -/
def field {α : Type} (fs : List (String × Node)) (name : String) (read : Node → Option (Option α)) :
    Option (Option α) :=
  match fs.lookup name with
  | none => some none
  | some n => read n

/-- A list of records; null records are left out. -/
def records? {α : Type} (read : Node → Option (Option α)) (n : Node) : Option (Option (List α)) := do
  let found ← (← items? n).mapM read
  some (some (found.filterMap id))

def targetDoc? (n : Node) : Option (Option TargetDoc) := do
  match ← record? ["routine", "label"] n with
  | none => some none
  | some fs =>
    some (some { routine := ← field fs "routine" int?, label := ← field fs "label" int? })

def params? (n : Node) : Option (Option (List Value)) := do
  some (some (← (← items? n).mapM Node.value?))

def opDoc? (n : Node) : Option (Option OpDoc) := do
  match ← record? ["offset", "op", "code", "params", "label", "target"] n with
  | none => some none
  | some fs =>
    some (some
      { offset := (← field fs "offset" int?).getD 0
        op := (← field fs "op" Node.name?).getD ""
        code := (← field fs "code" int?).getD 0
        params := (← field fs "params" params?).getD []
        label := ← field fs "label" int?
        target := ← field fs "target" targetDoc? })

def routineDoc? (n : Node) : Option (Option RoutineDoc) := do
  match ← record? ["id", "type", "linked_to", "ops"] n with
  | none => some none
  | some fs =>
    some (some
      { id := ← field fs "id" int?
        type := (← field fs "type" Node.name?).getD ""
        linkedTo := (← field fs "linked_to" int?).getD 0
        ops := (← field fs "ops" (records? opDoc?)).getD [] })

def ofNode? (n : Node) : Option Document := do
  match ← record? ["routines"] (← n.flatten) with
  | none => some {}
  | some fs => some { routines := (← field fs "routines" (records? routineDoc?)).getD [] }

/-- The document that a text spells; a text without a document is an empty one. -/
def ofText? (cs : List Char) : Option Document := do
  match ← Yaml.parse? cs with
  | none => some {}
  | some n => if n.isBearable then ofNode? n else none

/-- The document that a file holds. Bytes that are no text hold none. -/
def ofPieces? (text : List Text.Piece) : Option Document :=
  (Text.Piece.decode? text).bind fun s => ofText? s.toList

end Document

namespace Listing

def undecodable : Fault := invalidListing "decode listing"

/-- The routines of what was decoded, if anything was. -/
def ofDocument : Option Document → Except Fault (List Routine)
  | none => .error undecodable
  | some d => d.read

def read (text : List Text.Piece) : Except Fault (List Routine) := ofDocument (Document.ofPieces? text)

def readString (s : String) : Except Fault (List Routine) := read (Text.Piece.ofString s)

end Listing

end FlowRecovery

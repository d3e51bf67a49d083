/-! Faults are chains: a leaf says what happened, and every layer above it adds either a code with
a message or a message alone. The outermost code of a chain decides how the fault is reported;
the whole chain is its text. A cancelled run is a leaf of its own, since it decides the exit
status wherever in the chain it stands. -/
namespace FlowRecovery

/-- What went wrong, for a program that reads the report. -/
inductive Code where
  | invalidInput
  | invalidListing
  | invalidOpcodeTable
  | invalidPath
  | fileNotFound
  | routineNotFound
  | unknownLabel
  | duplicateLabel
  | ambiguousBranch
  | internal
  | other (name : String)
deriving DecidableEq, Repr, Inhabited

namespace Code

def name : Code → String
  | invalidInput => "INVALID_INPUT"
  | invalidListing => "INVALID_LISTING"
  | invalidOpcodeTable => "INVALID_OPCODE_TABLE"
  | invalidPath => "INVALID_PATH"
  | fileNotFound => "FILE_NOT_FOUND"
  | routineNotFound => "ROUTINE_NOT_FOUND"
  | unknownLabel => "UNKNOWN_LABEL"
  | duplicateLabel => "DUPLICATE_LABEL"
  | ambiguousBranch => "AMBIGUOUS_BRANCH"
  | internal => "INTERNAL_ERROR"
  | other name => name

/-- The codes that the library raises itself. -/
def known : List Code :=
  [invalidInput, invalidListing, invalidOpcodeTable, invalidPath, fileNotFound, routineNotFound,
    unknownLabel, duplicateLabel, ambiguousBranch, internal]

def ofName (s : String) : Code := (known.find? (·.name = s)).getD (other s)

/-- Codes that mean the listing itself is broken, not the way it was asked for. -/
def fatal : Code → Bool
  | unknownLabel | duplicateLabel | ambiguousBranch | internal => true
  | _ => false

end Code

inductive Fault where
  /-- A message without a code. -/
  | plain (message : String)
  | canceled
  /-- A result that the encoder refuses, with its complaint. -/
  | unencodable (complaint : String)
  | coded (code : Code) (message : String)
  | codedOver (code : Code) (message : String) (cause : Fault)
  | within (message : String) (cause : Fault)
deriving DecidableEq, Repr, Inhabited

namespace Fault

def text : Fault → String
  | plain message => message
  | canceled => "context canceled"
  | unencodable complaint => complaint
  | coded code message => code.name ++ ": " ++ message
  | codedOver code message cause => code.name ++ ": " ++ message ++ ": " ++ cause.text
  | within message cause => message ++ ": " ++ cause.text

/-- The outermost coded layer, as its code and its own message. -/
def outermost : Fault → Option (Code × String)
  | coded code message | codedOver code message _ => some (code, message)
  | within _ cause => cause.outermost
  | plain _ | canceled | unencodable _ => none

def code? (f : Fault) : Option Code := f.outermost.map (·.1)

def hasCode (f : Fault) (c : Code) : Bool := f.code? = some c

/-- The text for a person: the message of the outermost code, without its name and its causes. -/
def userMessage (f : Fault) : String :=
  match f.outermost with
  | some (_, message) => message
  | none => f.text

def fatal (f : Fault) : Bool := f.code?.any (·.fatal)

def cause? : Fault → Option Fault
  | codedOver _ _ cause | within _ cause => some cause
  | plain _ | canceled | unencodable _ | coded _ _ => none

def isCanceled : Fault → Bool
  | canceled => true
  | codedOver _ _ cause | within _ cause => cause.isCanceled
  | plain _ | unencodable _ | coded _ _ => false

def isUnencodable : Fault → Bool
  | unencodable _ => true
  | codedOver _ _ cause | within _ cause => cause.isUnencodable
  | plain _ | canceled | coded _ _ => false

/-- Interrupted runs end with 130, broken listings with 2 and every other fault with 1. -/
def exitStatus (f : Fault) : Nat := if f.isCanceled then 130 else if f.fatal then 2 else 1

/-- Adds a code over a cause that may be missing. -/
def coding (code : Code) (message : String) : Option Fault → Fault
  | none => coded code message
  | some cause => codedOver code message cause

/-- Adds a message over a cause that may be missing; the hole left by a missing one shows. -/
def inside (message : String) : Option Fault → Fault
  | none => plain (message ++ ": %!w(<nil>)")
  | some cause => within message cause

@[simp] theorem code?_within (m : String) (f : Fault) : (within m f).code? = f.code? := rfl

@[simp] theorem code?_coded (c : Code) (m : String) : (coded c m).code? = some c := rfl

@[simp] theorem code?_codedOver (c : Code) (m : String) (f : Fault) :
    (codedOver c m f).code? = some c := rfl

@[simp] theorem isCanceled_within (m : String) (f : Fault) :
    (within m f).isCanceled = f.isCanceled := rfl

theorem exitStatus_within (m : String) (f : Fault) : (within m f).exitStatus = f.exitStatus := rfl

theorem exitStatus_eq_two_iff (f : Fault) :
    f.exitStatus = 2 ↔ f.isCanceled = false ∧ f.fatal = true := by
  unfold exitStatus
  cases f.isCanceled <;> cases f.fatal <;> simp

end Fault

end FlowRecovery

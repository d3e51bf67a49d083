import FlowRecovery.Text.Quoted
import FlowRecovery.Word

/-! Numbers and truth values on a command line. A number may have a sign, a base and underscores
between its digits, and has to fit into 64 bits. -/
namespace FlowRecovery.Command

inductive LiteralFault where
  | malformed
  | tooLarge
deriving DecidableEq, Repr

def LiteralFault.text : LiteralFault → String
  | malformed => "invalid syntax"
  | tooLarge => "value out of range"

def digitValue (c : Char) : Nat :=
  if '0' ≤ c ∧ c ≤ '9' then c.toNat - '0'.toNat
  else if 'a' ≤ c ∧ c ≤ 'z' then c.toNat - 'a'.toNat + 10
  else if 'A' ≤ c ∧ c ≤ 'Z' then c.toNat - 'A'.toNat + 10
  else 36

/-- The base that a zero and a letter spell in front of at least one more character. -/
def namedBase? : List Char → Option (Nat × List Char)
  | '0' :: mark :: c :: rest =>
    if mark = 'b' ∨ mark = 'B' then some (2, c :: rest)
    else if mark = 'o' ∨ mark = 'O' then some (8, c :: rest)
    else if mark = 'x' ∨ mark = 'X' then some (16, c :: rest)
    else none
  | _ => none

/-- The base and the digits; a zero in front alone means eight. -/
def base (cs : List Char) : Nat × List Char :=
  match namedBase? cs, cs with
  | some found, _ => found
  | none, '0' :: rest => (8, rest)
  | none, _ => (10, cs)

/-- The number that digits spell, as far as it fits into 64 bits. -/
def magnitude (base : Nat) (n : Nat) : List Char → Except LiteralFault Nat
  | [] => .ok n
  | '_' :: rest => magnitude base n rest
  | c :: rest =>
    if base ≤ digitValue c then .error .malformed
    else if Word.unsignedBound ≤ n * base + digitValue c then .error .tooLarge
    else magnitude base (n * base + digitValue c) rest

/-- Every underscore stands between two digits. -/
def wellSpaced (afterDigit : Bool) : List Char → Bool
  | [] => true
  | ['_'] => false
  | '_' :: rest => afterDigit && wellSpaced false rest
  | _ :: rest => wellSpaced true rest

def unsigned (cs : List Char) : Except LiteralFault Nat := do
  if cs.isEmpty then .error .malformed
  let (base, digits) := base cs
  let n ← magnitude base 0 digits
  let spaced := match namedBase? cs with
    | some (_, digits) => wellSpaced true digits
    | none => wellSpaced false cs
  if spaced then .ok n else .error .malformed

/-- An integer of 64 bits. -/
def whole (s : String) : Except LiteralFault Int := do
  match s.toList with
  | '-' :: cs =>
    let n ← unsigned cs
    if Word.bound < n then .error .tooLarge else .ok (-n)
  | '+' :: cs => positive cs
  | cs => positive cs
where
  positive (cs : List Char) : Except LiteralFault Int := do
    let n ← unsigned cs
    if Word.bound ≤ n then .error .tooLarge else .ok n

def truth? (s : String) : Option Bool :=
  if ["1", "t", "T", "true", "TRUE", "True"].contains s then some true
  else if ["0", "f", "F", "false", "FALSE", "False"].contains s then some false
  else none

end FlowRecovery.Command

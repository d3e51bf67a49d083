import FlowRecovery.Decimal.Reader
import FlowRecovery.Value
import FlowRecovery.Word

/-! What a scalar stands for. A tag can say so; a plain scalar without a tag is looked up among the
words that mean null, a truth value or a special number, and else tried as a date, an integer and a
decimal number, in this order. Everything else is text. -/
namespace FlowRecovery.Yaml

/-- The kinds of scalars that can be told from their text. -/
inductive Tag where
  | str
  | bool
  | int
  | float
  | null
  | timestamp
  | binary
  | merge
  /-- Any other tag, in full. -/
  | other (name : String)
deriving DecidableEq, Repr, Inhabited

namespace Tag

def standard : String := "tag:yaml.org,2002:"

def ofShort : String → Option Tag
  | "str" => some str
  | "bool" => some bool
  | "int" => some int
  | "float" => some float
  | "null" => some null
  | "timestamp" => some timestamp
  | "binary" => some binary
  | "merge" => some merge
  | _ => none

/-- The tag of a full name; the standard ones may also be named with two exclamation marks. -/
def ofName (name : String) : Tag :=
  let strip (lead : String) : Option String :=
    if lead.toList.isPrefixOf name.toList then
      some (String.ofList (name.toList.drop lead.length))
    else none
  (((strip standard).or (strip "!!")).bind ofShort).getD (other name)

end Tag

/-! ### Integers -/

def digitOf? (base : Nat) (c : Char) : Option Nat :=
  let n :=
    if '0' ≤ c ∧ c ≤ '9' then c.toNat - '0'.toNat
    else if 'a' ≤ c ∧ c ≤ 'z' then c.toNat - 'a'.toNat + 10
    else if 'A' ≤ c ∧ c ≤ 'Z' then c.toNat - 'A'.toNat + 10
    else 36
  if n < base then some n else none

def natOf? (base : Nat) : List Char → Option Nat
  | [] => none
  | cs => cs.foldl (fun n c => do some (base * (← n) + (← digitOf? base c))) (some 0)

/-- A numeral whose base is spelled out in front of it; a leading zero means octal. -/
def basedNat? : List Char → Option Nat
  | '0' :: 'x' :: ds | '0' :: 'X' :: ds => natOf? 16 ds
  | '0' :: 'b' :: ds | '0' :: 'B' :: ds => natOf? 2 ds
  | '0' :: 'o' :: ds | '0' :: 'O' :: ds => natOf? 8 ds
  | ['0'] => some 0
  | '0' :: ds => natOf? 8 ds
  | ds => natOf? 10 ds

def signed (read : List Char → Option Nat) : List Char → Option Int
  | '-' :: ds => (read ds).map fun n => -(n : Int)
  | '+' :: ds => (read ds).map Int.ofNat
  | ds => (read ds).map Int.ofNat

/-- Keeps integers of 64 bits with a sign. -/
def inWord (n : Int) : Option Int := if Word.fits n then some n else none

/-- Keeps integers of 64 bits without a sign. -/
def inUnsigned (n : Nat) : Option Int := if n < Word.unsignedBound then some n else none

def int? (cs : List Char) : Option Int :=
  ((signed basedNat? cs).bind inWord).or ((basedNat? cs).bind inUnsigned)

/-- Binary and octal numerals with a sign behind the base. -/
def lateSign? : List Char → Option Int
  | '0' :: 'b' :: ds => (signed (natOf? 2) ds).bind inWord
  | '0' :: 'o' :: ds => (signed (natOf? 8) ds).bind inWord
  | _ => none

/-! ### Numbers with a fraction -/

/-- Underscores stand between digits only. -/
def underscoresFit : (afterDigit : Bool) → List Char → Bool
  | _, [] => true
  | afterDigit, '_' :: c :: rest => afterDigit && c.isDigit && underscoresFit true (c :: rest)
  | _, ['_'] => false
  | _, c :: rest => underscoresFit c.isDigit rest

/-- A numeral that starts with its point. -/
def pointFloat? (cs : List Char) : Option Float :=
  if underscoresFit false cs then
    (Decimal.Numeral.parse? (cs.filter (· ≠ '_'))).bind Decimal.Numeral.toFloat?
  else none

/-! ### Scalars -/

def infinity : Float := 1.0 / 0.0

def word? (s : String) : Option (Tag × Value) :=
  if ["true", "True", "TRUE"].contains s then some (.bool, .bool true)
  else if ["false", "False", "FALSE"].contains s then some (.bool, .bool false)
  else if ["", "~", "null", "Null", "NULL"].contains s then some (.null, .null)
  else if [".nan", ".NaN", ".NAN"].contains s then some (.float, .float (0.0 / 0.0))
  else if [".inf", ".Inf", ".INF", "+.inf", "+.Inf", "+.INF"].contains s then
    some (.float, .float infinity)
  else if ["-.inf", "-.Inf", "-.INF"].contains s then some (.float, .float (-infinity))
  else none

/-- What the text looks like by itself. Dates are looked for only if `dates` says so. -/
def guess (dates : Bool) (s : String) : Tag × Value :=
  let text := (Tag.str, Value.str s)
  match word? s with
  | some found => found
  | none =>
    match s.toList with
    | [] => text
    | c :: rest =>
      if c = '.' then
        match pointFloat? (c :: rest) with
        | some x => (.float, .float x)
        | none => text
      else if c.isDigit || c = '-' || c = '+' then
        match if dates then Timestamp.parse? s else none with
        | some t => (.timestamp, .time t)
        | none =>
          let digits := (c :: rest).filter (· ≠ '_')
          match int? digits with
          | some n => (.int, .int n)
          | none =>
            match (Decimal.Numeral.parse? digits).bind Decimal.Numeral.toFloat? with
            | some x => (.float, .float x)
            | none =>
              match lateSign? digits with
              | some n => (.int, .int n)
              | none => text
      else text

/-- The tag of a plain scalar without one. -/
def plainTag (s : String) : Tag := if s = "<<" then .merge else (guess true s).1

/-! ### Bytes in base 64 -/

def sextet? (c : Char) : Option Nat :=
  if 'A' ≤ c ∧ c ≤ 'Z' then some (c.toNat - 'A'.toNat)
  else if 'a' ≤ c ∧ c ≤ 'z' then some (c.toNat - 'a'.toNat + 26)
  else if '0' ≤ c ∧ c ≤ '9' then some (c.toNat - '0'.toNat + 52)
  else if c = '+' then some 62
  else if c = '/' then some 63
  else none

def base64Bytes? : List Char → Option (List UInt8)
  | [] => some []
  | [a, b, '=', '='] => do
    let n := (← sextet? a) * 64 + (← sextet? b)
    some [(n / 16).toUInt8]
  | [a, b, c, '='] => do
    let n := ((← sextet? a) * 64 + (← sextet? b)) * 64 + (← sextet? c)
    some [(n / 1024).toUInt8, (n / 4 % 256).toUInt8]
  | a :: b :: c :: d :: rest => do
    let n := (((← sextet? a) * 64 + (← sextet? b)) * 64 + (← sextet? c)) * 64 + (← sextet? d)
    let more ← base64Bytes? rest
    some ((n / 65536).toUInt8 :: (n / 256 % 256).toUInt8 :: (n % 256).toUInt8 :: more)
  | _ => none

/-- The text that base 64 spells; line breaks in it do not count. -/
def binaryText? (s : String) : Option String := do
  let bytes ← base64Bytes? (s.toList.filter fun c => c ≠ '\n' && c ≠ '\r')
  String.fromUTF8? ⟨bytes.toArray⟩

/-- What a scalar with a tag stands for; a text that does not fit its tag stands for nothing. -/
def resolve? (tag : Tag) (s : String) : Option Value :=
  match tag with
  | .str => some (.str s)
  | .binary => (binaryText? s).map .str
  | .merge | .other _ => some (.str s)
  | _ =>
    let (found, v) := guess (tag = .timestamp) s
    if found = tag then some v
    else match tag, v with
      | .float, .int n => if n < Word.bound then some (.float (Float.ofInt n)) else none
      | _, _ => none

end FlowRecovery.Yaml

import FlowRecovery.Decimal.Reader
import FlowRecovery.Timestamp
import FlowRecovery.Word

/-! Values of TOML that are neither strings nor containers: truth values, integers, doubles, dates
and times. Only their form matters here. -/
namespace FlowRecovery.Toml

inductive Atom where
  | bool
  | int
  | float
  | time
deriving DecidableEq, Repr

/-- Digits, with single underscores between them. -/
def digitRun? (ok : Char → Bool) : List Char → Bool
  | [] => false
  | [c] => ok c
  | c :: '_' :: rest => ok c && digitRun? ok rest
  | c :: rest => ok c && digitRun? ok rest

def isHex (c : Char) : Bool := c.isDigit || ('a' ≤ c && c ≤ 'f') || ('A' ≤ c && c ≤ 'F')

def unsigned : List Char → List Char
  | '+' :: rest | '-' :: rest => rest
  | cs => cs

/-- Digits without a zero in front. -/
def wholePart? (cs : List Char) : Bool :=
  digitRun? Char.isDigit cs && (cs.head? ≠ some '0' || cs.length = 1)

def numberOf (base : Nat) (cs : List Char) : Nat :=
  cs.foldl
    (fun n c =>
      if c = '_' then n
      else base * n +
        (if c.isDigit then c.toNat - '0'.toNat
          else if 'a' ≤ c then c.toNat - 'a'.toNat + 10
          else c.toNat - 'A'.toNat + 10))
    0

/-- An integer of 64 bits, in any of four bases. -/
def int? (cs : List Char) : Bool :=
  match cs with
  | '0' :: 'x' :: ds => digitRun? isHex ds && numberOf 16 ds < Word.bound
  | '0' :: 'o' :: ds =>
    digitRun? (fun c => '0' ≤ c && c ≤ '7') ds && numberOf 8 ds < Word.bound
  | '0' :: 'b' :: ds => digitRun? (fun c => c = '0' || c = '1') ds && numberOf 2 ds < Word.bound
  | _ =>
    let ds := unsigned cs
    wholePart? ds &&
      (if cs.head? = some '-' then numberOf 10 ds ≤ Word.bound else numberOf 10 ds < Word.bound)

def exponent? : List Char → Bool
  | [] => true
  | mark :: rest => (mark = 'e' || mark = 'E') && digitRun? Char.isDigit (unsigned rest)

/-- A double with a point or an exponent; beyond the largest one there is none. -/
def float? (cs : List Char) : Bool :=
  let cs := unsigned cs
  if cs = "inf".toList ∨ cs = "nan".toList then true
  else if (Decimal.float? (String.ofList (cs.filter (· ≠ '_')))).isNone then false
  else
    let isPart (c : Char) : Bool := c.isDigit || c = '_'
    let whole := cs.takeWhile isPart
    wholePart? whole &&
      match cs.dropWhile isPart with
      | '.' :: rest =>
        digitRun? Char.isDigit (rest.takeWhile isPart) && exponent? (rest.dropWhile isPart)
      | rest => rest ≠ [] && exponent? rest

/-- Two digits below `limit`. -/
def twoDigits? (limit : Nat) : List Char → Option (List Char)
  | a :: b :: rest =>
    if a.isDigit && b.isDigit && numberOf 10 [a, b] < limit then some rest else none
  | _ => none

def clock? (cs : List Char) : Option (List Char) := do
  let cs ← twoDigits? 24 cs
  let cs ← twoDigits? 60 (← Timestamp.literal ':' cs)
  let cs ← twoDigits? 60 (← Timestamp.literal ':' cs)
  match cs with
  | '.' :: d :: rest => if d.isDigit then some (rest.dropWhile Char.isDigit) else none
  | _ => some cs

/-- An offset from universal time; a whole day is the greatest one. -/
def zone? : List Char → Bool
  | [] | ['Z'] | ['z'] => true
  | sign :: rest =>
    (sign = '+' || sign = '-') &&
      ((do twoDigits? 61 (← Timestamp.literal ':' (← twoDigits? 25 rest))) = some [])

/-- A date of four, two and two digits. -/
def date? : List Char → Option (List Char)
  | a :: b :: c :: d :: '-' :: e :: f :: '-' :: g :: h :: rest =>
    (Timestamp.readDate [a, b, c, d, '-', e, f, '-', g, h]).bind fun (_, left) =>
      if left = [] && e.isDigit && f.isDigit && g.isDigit && h.isDigit then some rest else none
  | _ => none

/-- A date, a time of day, or both with or without an offset. -/
def time? (cs : List Char) : Bool :=
  match date? cs with
  | none => clock? cs = some []
  | some [] => true
  | some (mark :: rest) =>
    (mark = 'T' || mark = 't' || mark = ' ') && ((clock? rest).map zone? = some true)

def atom? (cs : List Char) : Option Atom :=
  if cs = "true".toList ∨ cs = "false".toList then some .bool
  else if int? cs then some .int
  else if float? cs then some .float
  else if time? cs then some .time
  else none

end FlowRecovery.Toml

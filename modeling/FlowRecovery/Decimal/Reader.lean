/-! Decimal numerals as doubles: a sign, digits with at most one point among them, and an exponent.
The double is the nearest one. A numeral beyond the largest double is refused; one below the
smallest is zero. -/
namespace FlowRecovery.Decimal

/-- The number `digits · 10 ^ exponent`. -/
structure Numeral where
  negative : Bool
  digits : Nat
  exponent : Int
deriving DecidableEq, Repr

namespace Numeral

def digitsValue (cs : List Char) : Nat := cs.foldl (fun n c => 10 * n + (c.toNat - '0'.toNat)) 0

def sign : List Char → Bool × List Char
  | '-' :: rest => (true, rest)
  | '+' :: rest => (false, rest)
  | cs => (false, cs)

/-- The exponent that ends a numeral; without one it is zero. -/
def exponent? : List Char → Option Int
  | [] => some 0
  | mark :: rest =>
    if mark = 'e' ∨ mark = 'E' then
      let (negative, digits) := sign rest
      if digits ≠ [] ∧ digits.all Char.isDigit then
        let n : Int := digitsValue digits
        some (if negative then -n else n)
      else none
    else none

/-- Digits before a point, after it, or both. -/
def parse? (cs : List Char) : Option Numeral := do
  let (negative, cs) := sign cs
  let whole := cs.takeWhile Char.isDigit
  let cs := cs.dropWhile Char.isDigit
  let (fraction, cs) := match cs with
    | '.' :: rest => (rest.takeWhile Char.isDigit, rest.dropWhile Char.isDigit)
    | cs => ([], cs)
  if whole = [] ∧ fraction = [] then none
  else
    let e ← exponent? cs
    some ⟨negative, digitsValue (whole ++ fraction), e - fraction.length⟩

/-- The nearest double. -/
def toFloat? (n : Numeral) : Option Float :=
  let lead := (Nat.toDigits 10 n.digits).length + n.exponent
  let x : Float :=
    if n.digits = 0 ∨ lead < -400 then 0.0
    else if 400 < lead then 1.0 / 0.0
    else Float.ofScientific n.digits (n.exponent < 0) n.exponent.natAbs
  if x.isInf then none else some (if n.negative then -x else x)

end Numeral

def float? (s : String) : Option Float := (Numeral.parse? s.toList).bind Numeral.toFloat?

end FlowRecovery.Decimal

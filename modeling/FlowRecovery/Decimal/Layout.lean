import FlowRecovery.Decimal.Shortest

/-! How a double is written: which magnitudes stand without an exponent, how wide an exponent is,
and how the numbers without digits are spelled. -/
namespace FlowRecovery.Decimal

structure Layout where
  /-- Leading digits of this decimal exponent and above get an exponent. -/
  large : Int
  /-- Leading digits below this decimal exponent get an exponent. -/
  small : Int
  /-- The least number of digits of an exponent. -/
  exponentWidth : Nat
deriving DecidableEq, Repr

namespace Layout

def sign (negative : Bool) (s : String) : String := if negative then "-" ++ s else s

def zeros (n : Nat) : String := String.ofList (List.replicate n '0')

def padded (width n : Nat) : String :=
  let s := n.repr
  zeros (width - s.length) ++ s

/-- One digit, the others behind a point, and an exponent with its sign. -/
def scientific (l : Layout) (digits : List Char) (exponent : Int) : String :=
  let fraction := String.ofList digits.tail
  String.ofList (digits.take 1) ++ (if fraction.isEmpty then "" else "." ++ fraction) ++ "e"
    ++ (if exponent < 0 then "-" else "+") ++ padded l.exponentWidth exponent.natAbs

/-- Digits with a point in their place, or with zeros up to it. -/
def positional (digits : List Char) (exponent : Int) : String :=
  if exponent < 0 then "0." ++ zeros (exponent.natAbs - 1) ++ String.ofList digits
  else
    let whole := exponent.toNat + 1
    let fraction := String.ofList (digits.drop whole)
    String.ofList (digits.take whole) ++ zeros (whole - digits.length)
      ++ (if fraction.isEmpty then "" else "." ++ fraction)

def finite (l : Layout) (negative : Bool) (m : Nat) (q : Int) : String :=
  if m = 0 then sign negative "0"
  else
    let s := shortest m q
    let digits := Nat.toDigits 10 s.digits
    let lead := s.exponent + digits.length - 1
    sign negative <|
      if lead < l.small ∨ l.large ≤ lead then l.scientific digits lead else positional digits lead

def render (l : Layout) : Binary64 → String
  | .nan => "NaN"
  | .infinite negative => if negative then "-Inf" else "+Inf"
  | .finite negative m q => l.finite negative m q

end Layout

end FlowRecovery.Decimal

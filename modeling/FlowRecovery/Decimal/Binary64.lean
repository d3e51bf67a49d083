/-! Double precision numbers as exact integers: a finite one is a mantissa times a power of two,
with the lowest power that its exponent field allows. -/
namespace FlowRecovery.Decimal

inductive Binary64 where
  | nan
  | infinite (negative : Bool)
  /-- The number `± mantissa · 2 ^ exponent`. -/
  | finite (negative : Bool) (mantissa : Nat) (exponent : Int)
deriving DecidableEq, Repr

namespace Binary64

/-- The leading bit of a mantissa that is not the smallest. -/
def leading : Nat := 4503599627370496

theorem leading_eq : leading = Nat.pow 2 52 := rfl

def ofFloat (x : Float) : Binary64 :=
  let bits := x.toBits.toNat
  let negative := bits / (2048 * leading) == 1
  let field : Nat := bits / leading % 2048
  let fraction : Nat := bits % leading
  if field = 2047 then (if fraction = 0 then infinite negative else nan)
  else if field = 0 then finite negative fraction (-1074)
  else finite negative (leading + fraction) ((field : Int) - 1075)

def isFinite : Binary64 → Bool
  | finite .. => true
  | _ => false

/-- The integer part; numbers without one have none. -/
def trunc? : Binary64 → Option Int
  | finite negative m e =>
    let n : Nat := if 0 ≤ e then m * Nat.pow 2 e.toNat else m / Nat.pow 2 (-e).toNat
    some (if negative then -(n : Int) else n)
  | _ => none

end Binary64

end FlowRecovery.Decimal

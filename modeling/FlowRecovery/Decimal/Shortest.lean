import FlowRecovery.Decimal.Binary64

/-! The shortest decimal that reads back as a given double. The reals that round to
`m · 2 ^ q` form an interval, whose ends belong to it exactly when `m` is even. For one digit, two
digits and so on, the two neighbours of the number on that decimal grid are tried in exact
arithmetic. The first grid with a neighbour inside the interval wins; of two such neighbours the
nearer one, and of two equally near ones the even one. -/
namespace FlowRecovery.Decimal

/-- The number `digits · 10 ^ exponent`, its digits read as one numeral. -/
structure Scaled where
  digits : Nat
  exponent : Int
deriving DecidableEq, Repr

/-- A positive number as the fraction `num / den`, with the distances to the ends of its interval
over the same denominator. -/
structure Interval where
  num : Nat
  den : Nat
  below : Nat
  above : Nat
  closed : Bool

/-- The interval of the positive double `m · 2 ^ q`. The step down is half as wide below a power
of two. -/
def Interval.ofBinary (m : Nat) (q : Int) : Interval :=
  let narrow := m = Binary64.leading ∧ -1074 < q
  let unit := Nat.pow 2 q.toNat
  { num := 4 * m * unit
    den := 4 * Nat.pow 2 (-q).toNat
    below := if narrow then unit else 2 * unit
    above := 2 * unit
    closed := m % 2 == 0 }

/-- Whether `d · 10 ^ e` lies in the interval, and how far it is from the number, over a common
denominator. -/
def Interval.distance? (i : Interval) (d : Nat) (e : Int) : Option Nat :=
  let up := Nat.pow 10 e.toNat
  let down := Nat.pow 10 (-e).toNat
  let point := d * up * i.den
  let here := i.num * down
  let inside (gap reach : Nat) : Bool := if i.closed then gap ≤ reach else gap < reach
  if point ≤ here then
    if inside (here - point) (i.below * down) then some (here - point) else none
  else
    if inside (point - here) (i.above * down) then some (point - here) else none

/-- The neighbours of the number on the grid of `10 ^ e`, if one of them is inside. -/
def Interval.onGrid? (i : Interval) (e : Int) : Option Nat :=
  let d := i.num * Nat.pow 10 (-e).toNat / (i.den * Nat.pow 10 e.toNat)
  match i.distance? d e, i.distance? (d + 1) e with
  | some a, some b =>
    some (if a < b then d else if b < a then d + 1 else if d % 2 = 0 then d else d + 1)
  | some _, none => some d
  | none, some _ => some (d + 1)
  | none, none => none

/-- The decimal exponent of the leading digit: `10 ^ e ≤ num / den < 10 ^ (e + 1)`. -/
def Interval.magnitude (i : Interval) : Int :=
  if i.den ≤ i.num then ((Nat.toDigits 10 (i.num / i.den)).length : Int) - 1
  else Int.negOfNat (Nat.toDigits 10 ((i.den - 1) / i.num)).length

/-- Tries the grids of `n` digits and more. -/
def Interval.search (i : Interval) (top : Int) : (tries n : Nat) → Scaled
  | 0, n => ⟨i.num * Nat.pow 10 n / i.den, -n⟩
  | tries + 1, n =>
    let e := top - n + 1
    match i.onGrid? e with
    | some d => ⟨d, e⟩
    | none => i.search top tries (n + 1)

/-- Drops trailing zeros of a positive numeral. -/
def Scaled.trim : (fuel : Nat) → Scaled → Scaled
  | 0, s => s
  | fuel + 1, s => if s.digits % 10 = 0 ∧ s.digits ≠ 0 then trim fuel ⟨s.digits / 10, s.exponent + 1⟩ else s

/-- The shortest numeral of the double `m · 2 ^ q`. -/
def shortest (m : Nat) (q : Int) : Scaled :=
  if m = 0 then ⟨0, 0⟩
  else
    let i := Interval.ofBinary m q
    (i.search i.magnitude 17 1).trim 20

end FlowRecovery.Decimal

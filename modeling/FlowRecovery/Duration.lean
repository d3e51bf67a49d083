import FlowRecovery.Timestamp
import FlowRecovery.Word

/-! Spans of time in nanoseconds, as a report shows them: rounded to microseconds, in the largest
unit of at most a second that gives a whole part, and with minutes and hours in front from there
on. -/
namespace FlowRecovery.Duration

def least : Int := -Word.bound

def greatest : Int := Word.bound - 1

/-- The nearest multiple of a thousand; halves go away from zero, and a span of 64 bits stays one. -/
def roundToMicros (nanos : Int) : Int :=
  let rounded : Int := (nanos.natAbs + 500) / 1000 * 1000
  if nanos < 0 then max least (-rounded) else min greatest rounded

/-- A number of units, of which the last `places` digits are a fraction. -/
def inUnit (places n : Nat) (unit : String) : String :=
  let fraction := (Decimal.Layout.padded places (n % Nat.pow 10 places)).toList
  let kept := (fraction.reverse.dropWhile (· = '0')).reverse
  toString (n / Nat.pow 10 places)
    ++ (if places = 0 ∨ kept.isEmpty then "" else "." ++ String.ofList kept) ++ unit

/-- The text of a span without its sign. -/
def magnitude (nanos : Nat) : String :=
  if nanos = 0 then "0s"
  else if nanos < 1000 then inUnit 0 nanos "ns"
  else if nanos < 1000000 then inUnit 3 nanos "µs"
  else if nanos < 1000000000 then inUnit 6 nanos "ms"
  else
    let minute := 60000000000
    let minutes := nanos / minute
    let seconds := inUnit 9 (nanos % minute) "s"
    if minutes = 0 then seconds
    else if minutes < 60 then toString minutes ++ "m" ++ seconds
    else toString (minutes / 60) ++ "h" ++ toString (minutes % 60) ++ "m" ++ seconds

def text (nanos : Int) : String :=
  if nanos < 0 then "-" ++ magnitude nanos.natAbs else magnitude nanos.natAbs

end FlowRecovery.Duration

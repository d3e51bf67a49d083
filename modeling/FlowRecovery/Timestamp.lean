import FlowRecovery.Decimal.Layout

/-! Points in time as a listing writes them: a civil date, a time of day to the nanosecond and the
offset of its clock from universal time. The civil fields are kept as written. -/
namespace FlowRecovery

structure Timestamp where
  year : Nat
  month : Nat
  day : Nat
  hour : Nat := 0
  minute : Nat := 0
  second : Nat := 0
  nanos : Nat := 0
  /-- Minutes ahead of universal time. -/
  offset : Int := 0
deriving DecidableEq, Repr, Inhabited

namespace Timestamp

def isLeap (year : Nat) : Bool := year % 4 == 0 && (year % 100 != 0 || year % 400 == 0)

def daysIn (year month : Nat) : Nat :=
  match month with
  | 2 => if isLeap year then 29 else 28
  | 4 | 6 | 9 | 11 => 30
  | _ => 31

/-! ### Reading -/

def digit? (c : Char) : Option Nat := if c.isDigit then some (c.toNat - '0'.toNat) else none

/-- A field of one or two digits. -/
def shortField : List Char → Option (Nat × List Char)
  | a :: b :: rest =>
    match digit? a, digit? b with
    | some x, some y => some (10 * x + y, rest)
    | some x, none => some (x, b :: rest)
    | none, _ => none
  | [a] => (digit? a).map (·, [])
  | [] => none

def literal (c : Char) : List Char → Option (List Char)
  | d :: rest => if d = c then some rest else none
  | [] => none

/-- A year of four digits, a month and a day. -/
def readDate : List Char → Option (Timestamp × List Char)
  | a :: b :: c :: d :: rest => do
    let year := 1000 * (← digit? a) + 100 * (← digit? b) + 10 * (← digit? c) + (← digit? d)
    let (month, rest) ← shortField (← literal '-' rest)
    let (day, rest) ← shortField (← literal '-' rest)
    if 1 ≤ month ∧ month ≤ 12 ∧ 1 ≤ day ∧ day ≤ daysIn year month then
      some ({ year, month, day }, rest)
    else none
  | _ => none

/-- Nine digits of a fraction; further ones are dropped and missing ones are zero. -/
def fractionNanos (digits : List Char) : Nat :=
  (digits.take 9 ++ List.replicate (9 - digits.length) '0').foldl
    (fun n c => 10 * n + (c.toNat - '0'.toNat)) 0

/-- A fraction after a point or a comma, if there is one. -/
def readFraction : List Char → Nat × List Char
  | mark :: d :: rest =>
    if (mark = '.' ∨ mark = ',') ∧ d.isDigit then
      let digits := (d :: rest).takeWhile Char.isDigit
      (fractionNanos digits, (d :: rest).dropWhile Char.isDigit)
    else (0, mark :: d :: rest)
  | cs => (0, cs)

def readClock (t : Timestamp) (cs : List Char) : Option (Timestamp × List Char) := do
  let (hour, cs) ← shortField cs
  let (minute, cs) ← shortField (← literal ':' cs)
  let (second, cs) ← shortField (← literal ':' cs)
  let (nanos, cs) := readFraction cs
  if hour < 24 ∧ minute < 60 ∧ second < 60 then
    some ({ t with hour, minute, second, nanos }, cs)
  else none

/-- The letter `Z`, or a signed offset of two and two digits. -/
def readOffset : List Char → Option (Int × List Char)
  | 'Z' :: rest => some (0, rest)
  | sign :: a :: b :: ':' :: c :: d :: rest => do
    let hours := 10 * (← digit? a) + (← digit? b)
    let minutes := 10 * (← digit? c) + (← digit? d)
    let total : Int := 60 * hours + minutes
    if 24 < hours ∨ 60 < minutes then none
    else if sign = '+' then some (total, rest)
    else if sign = '-' then some (-total, rest)
    else none
  | _ => none

/-- A date with a clock and an offset after a `T` or `t`, a date with a clock after a space, or a
date alone. -/
def parse? (s : String) : Option Timestamp := do
  let (t, rest) ← readDate s.toList
  match rest with
  | [] => some t
  | mark :: rest =>
    let (t, rest) ← readClock t rest
    if mark = 'T' ∨ mark = 't' then
      match ← readOffset rest with
      | (offset, []) => some { t with offset }
      | _ => none
    else if mark = ' ' ∧ rest = [] then some t
    else none

/-! ### Writing -/

def two (n : Nat) : String := Decimal.Layout.padded 2 n

def dateText (t : Timestamp) : String :=
  Decimal.Layout.padded 4 t.year ++ "-" ++ two t.month ++ "-" ++ two t.day

/-- The nine digits of a fraction without the zeros at their end, after a point. -/
def fractionText (nanos : Nat) : String :=
  let digits := (Decimal.Layout.padded 9 nanos).toList.reverse.dropWhile (· = '0')
  if digits.isEmpty then "" else "." ++ String.ofList digits.reverse

def clockText (t : Timestamp) : String :=
  two t.hour ++ ":" ++ two t.minute ++ ":" ++ two t.second ++ fractionText t.nanos

def offsetText (between : String) (offset : Int) : String :=
  (if offset < 0 then "-" else "+") ++ two (offset.natAbs / 60) ++ between
    ++ two (offset.natAbs % 60)

/-- For a reader of the graph: an offset that has no name stands for its own name. -/
def text (t : Timestamp) : String :=
  let offset := offsetText "" t.offset
  t.dateText ++ " " ++ t.clockText ++ " " ++ offset ++ " "
    ++ (if t.offset = 0 then "UTC" else offset)

/-- The interchange form. Offsets of a whole day have none. -/
def interchange? (t : Timestamp) : Option String :=
  if 24 ≤ t.offset.natAbs / 60 then none
  else some (t.dateText ++ "T" ++ t.clockText
    ++ (if t.offset = 0 then "Z" else offsetText ":" t.offset))

end Timestamp

end FlowRecovery

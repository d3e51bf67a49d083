/-! Character classes as sorted tables of inclusive code point ranges, searched by bisection. -/
namespace FlowRecovery.Text

abbrev Ranges := Array (Nat × Nat)

/-- Bisection between `lo` and `hi`; `fuel` bounds the halvings. -/
def Ranges.search (rs : Ranges) (n : Nat) : (fuel lo hi : Nat) → Bool
  | 0, _, _ => false
  | fuel + 1, lo, hi =>
    if lo < hi then
      let mid := (lo + hi) / 2
      match rs[mid]? with
      | none => false
      | some (first, last) =>
        if n < first then search rs n fuel lo mid
        else if last < n then search rs n fuel (mid + 1) hi
        else true
    else false

def Ranges.contains (rs : Ranges) (c : Char) : Bool := rs.search c.toNat (rs.size + 1) 0 rs.size

end FlowRecovery.Text

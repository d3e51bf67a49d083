/-! The bounds of integers of 64 bits. -/
namespace FlowRecovery.Word

/-- The least number that is too large for a signed integer. -/
def bound : Nat := 9223372036854775808

/-- The least number that is too large for an unsigned integer. -/
def unsignedBound : Nat := 18446744073709551616

/-- Whether a number is a signed integer of 64 bits. -/
def fits (n : Int) : Bool := -(bound : Int) ≤ n && n < bound

theorem bound_eq : bound = Nat.pow 2 63 := rfl

theorem unsignedBound_eq : unsignedBound = Nat.pow 2 64 := rfl

end FlowRecovery.Word

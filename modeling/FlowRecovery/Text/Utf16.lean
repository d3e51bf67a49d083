import FlowRecovery.Text.Piece

/-! Text in units of two bytes. Characters beyond the first plane take two units, of which the first
and the second are told apart by their ranges. -/
namespace FlowRecovery.Text

namespace Utf16

/-- The units that bytes spell; the lower byte comes first or last. -/
def units? (lowFirst : Bool) : List UInt8 → Option (List Nat)
  | [] => some []
  | [_] => none
  | a :: b :: rest =>
    let (low, high) := if lowFirst then (a, b) else (b, a)
    (units? lowFirst rest).map ((256 * high.toNat + low.toNat) :: ·)

def isFirst (u : Nat) : Bool := 0xD800 ≤ u && u < 0xDC00

def isSecond (u : Nat) : Bool := 0xDC00 ≤ u && u < 0xE000

def chars? : List Nat → Option (List Char)
  | [] => some []
  | u :: rest =>
    if isSecond u then none
    else if isFirst u then
      match rest with
      | v :: more =>
        if isSecond v then
          (chars? more).map (Char.ofNat (0x10000 + 0x400 * (u - 0xD800) + (v - 0xDC00)) :: ·)
        else none
      | [] => none
    else (chars? rest).map (Char.ofNat u :: ·)

def decode? (lowFirst : Bool) (bytes : List UInt8) : Option String :=
  ((units? lowFirst bytes).bind chars?).map String.ofList

end Utf16

namespace Piece

def bytes : Piece → List UInt8
  | char c => String.utf8EncodeChar c
  | stray b => [b]

/-- The text, in the encoding that a mark in front of it names. -/
def decode? (ps : List Piece) : Option String :=
  match ps.flatMap bytes with
  | 0xFF :: 0xFE :: rest => Utf16.decode? true rest
  | 0xFE :: 0xFF :: rest => Utf16.decode? false rest
  | _ => toString? ps

end Piece

end FlowRecovery.Text

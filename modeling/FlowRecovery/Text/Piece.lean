/-! Text that arrived as bytes. Every well-formed character is kept as such, and every byte that
belongs to none is kept on its own, so that a message can show it. -/
namespace FlowRecovery.Text

inductive Piece where
  | char (c : Char)
  | stray (b : UInt8)
deriving DecidableEq, Repr

namespace Piece

/-- How the piece reads as a character; a stray byte reads as the replacement character. -/
def toChar : Piece → Char
  | char c => c
  | stray _ => Char.ofNat 0xFFFD

def byteSize : Piece → Nat
  | char c => c.utf8Size
  | stray _ => 1

/-- How many bytes a text takes. -/
def byteLength (ps : List Piece) : Nat := ps.foldl (fun n p => n + p.byteSize) 0

/-- Reads from position `i` on; `fuel` bounds the pieces, and no piece is empty. -/
def readFrom (bytes : ByteArray) : (fuel i : Nat) → List Piece
  | 0, _ => []
  | fuel + 1, i =>
    match bytes[i]? with
    | none => []
    | some b =>
      match bytes.utf8DecodeChar? i with
      | some c => char c :: readFrom bytes fuel (i + c.utf8Size)
      | none => stray b :: readFrom bytes fuel (i + 1)

def ofBytes (bytes : ByteArray) : List Piece := readFrom bytes bytes.size 0

def ofString (s : String) : List Piece := s.toList.map char

/-- The text, if no byte went astray. -/
def toString? : List Piece → Option String :=
  fun ps => (ps.mapM fun
    | char c => some c
    | stray _ => none).map String.ofList

@[simp] theorem toChar_char (c : Char) : (char c).toChar = c := rfl

end Piece

end FlowRecovery.Text

import FlowRecovery.Text.Piece
import FlowRecovery.Text.Printable

/-! Quoted text in messages. Printable characters stand for themselves; the quote and the
backslash get a backslash; the rest is written as a short escape, as two hexadecimal digits below
the space, and as four or eight above it. -/
namespace FlowRecovery.Text

/-- The last `width` hexadecimal digits of `n`, in small letters. -/
def hexDigits : (width n : Nat) → List Char
  | 0, _ => []
  | width + 1, n => hexDigits width (n / 16) ++ [Nat.digitChar (n % 16)]

def shortEscape? (c : Char) : Option Char :=
  match c.toNat with
  | 7 => some 'a'
  | 8 => some 'b'
  | 9 => some 't'
  | 10 => some 'n'
  | 11 => some 'v'
  | 12 => some 'f'
  | 13 => some 'r'
  | _ => none

def quoteChar (mark c : Char) : List Char :=
  if c = mark ∨ c = '\\' then ['\\', c]
  else if isPrintable c then [c]
  else match shortEscape? c with
    | some e => ['\\', e]
    | none =>
      let n := c.toNat
      if n < 32 ∨ n = 127 then '\\' :: 'x' :: hexDigits 2 n
      else if n < 0x10000 then '\\' :: 'u' :: hexDigits 4 n
      else '\\' :: 'U' :: hexDigits 8 n

def quotePiece (mark : Char) : Piece → List Char
  | .char c => quoteChar mark c
  | .stray b => '\\' :: 'x' :: hexDigits 2 b.toNat

def quotePieces (ps : List Piece) : String :=
  String.ofList ('"' :: ps.flatMap (quotePiece '"') ++ ['"'])

def quote (s : String) : String := quotePieces (Piece.ofString s)

/-- One character between single quotes. -/
def quoteOne (c : Char) : String := String.ofList ('\'' :: quoteChar '\'' c ++ ['\''])

end FlowRecovery.Text

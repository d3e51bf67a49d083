/-! A place in a YAML text: the characters ahead and where the first of them stands. Lines end with
a line feed, a carriage return, both, or one of three further characters; those that only end a
line are read as a line feed. -/
namespace FlowRecovery.Yaml

/-- Ends a line and means nothing else. -/
def isPlainBreak (c : Char) : Bool := c = '\n' || c = '\r' || c.toNat = 0x85

def isBreak (c : Char) : Bool := isPlainBreak c || c.toNat = 0x2028 || c.toNat = 0x2029

def isBlank (c : Char) : Bool := c = ' ' || c = '\t'

/-- Letters, digits, `_` and `-`. -/
def isWordChar (c : Char) : Bool := c.isAlphanum || c = '_' || c = '-'

structure Cursor where
  ahead : List Char
  index : Nat := 0
  line : Nat := 0
  column : Nat := 0
  /-- Nothing but blanks since the last line break. -/
  freshLine : Bool := false
deriving Repr, Inhabited

namespace Cursor

def peek? (c : Cursor) (n : Nat := 0) : Option Char := c.ahead[n]?

def looksAt (c : Cursor) (x : Char) (n : Nat := 0) : Bool := c.peek? n = some x

def isEnd (c : Cursor) : Bool := c.ahead.isEmpty

def atBlank (c : Cursor) (n : Nat := 0) : Bool := (c.peek? n).any isBlank

def atBreak (c : Cursor) (n : Nat := 0) : Bool := (c.peek? n).any isBreak

/-- At a line break or at the end of the text. -/
def atLineEnd (c : Cursor) (n : Nat := 0) : Bool := (c.peek? n).all isBreak

/-- At a blank, a line break or the end of the text. -/
def atGap (c : Cursor) (n : Nat := 0) : Bool := (c.peek? n).all fun x => isBlank x || isBreak x

/-- Moves past one character of a line. -/
def skip (c : Cursor) : Cursor :=
  match c.ahead with
  | [] => c
  | x :: rest =>
    { ahead := rest, index := c.index + 1, line := c.line, column := c.column + 1
      freshLine := isBlank x && c.freshLine }

def skipN : (n : Nat) → Cursor → Cursor
  | 0, c => c
  | n + 1, c => skipN n c.skip

/-- Moves past a line break. -/
def skipLine (c : Cursor) : Cursor :=
  let next (rest : List Char) (n : Nat) : Cursor :=
    { ahead := rest, index := c.index + n, line := c.line + 1, column := 0, freshLine := true }
  match c.ahead with
  | '\r' :: '\n' :: rest => next rest 2
  | x :: rest => if isBreak x then next rest 1 else c
  | [] => c

/-- The line break ahead, as it is read. -/
def lineBreak? (c : Cursor) : Option Char :=
  (c.peek?).bind fun x => if isPlainBreak x then some '\n' else if isBreak x then some x else none

/-- Moves past the characters that satisfy `p`, none of which is a line break. -/
def skipWhile (p : Char → Bool) (c : Cursor) : Cursor := skipN (c.ahead.takeWhile p).length c

/-- The characters that satisfy `p`. -/
def takeWhile (p : Char → Bool) (c : Cursor) : List Char := c.ahead.takeWhile p

/-- At the start of a line that is a mark between documents. -/
def atMark (mark : Char) (c : Cursor) : Bool :=
  c.column = 0 && c.looksAt mark && c.looksAt mark 1 && c.looksAt mark 2 && c.atGap 3

def atDocumentMark (c : Cursor) : Bool := c.atMark '-' || c.atMark '.'

/-- The number of moves that are sure to reach the end. -/
def fuel (c : Cursor) : Nat := c.ahead.length + 1

end Cursor

end FlowRecovery.Yaml

import FlowRecovery.Text.Quoted

/-! Strings of TOML. A basic string escapes the quote, the backslash and the control characters; a
literal string escapes nothing; both also exist in a form over several lines, between three
quotes. -/
namespace FlowRecovery.Toml

/-! ### Writing -/

def escapeChar (c : Char) : List Char :=
  if c = '"' ∨ c = '\\' then ['\\', c]
  else match c.toNat with
    | 8 => ['\\', 'b']
    | 9 => ['\\', 't']
    | 10 => ['\\', 'n']
    | 12 => ['\\', 'f']
    | 13 => ['\\', 'r']
    | n => if n < 32 ∨ n = 127 then '\\' :: 'u' :: Text.hexDigits 4 n else [c]

def quoted (s : String) : List Char := '"' :: s.toList.flatMap escapeChar ++ ['"']

/-! ### Reading -/

def hexDigit? (c : Char) : Option Nat :=
  if '0' ≤ c ∧ c ≤ '9' then some (c.toNat - '0'.toNat)
  else if 'a' ≤ c ∧ c ≤ 'f' then some (c.toNat - 'a'.toNat + 10)
  else if 'A' ≤ c ∧ c ≤ 'F' then some (c.toNat - 'A'.toNat + 10)
  else none

def hexNumber? (cs : List Char) : Option Nat :=
  cs.foldl (fun n c => do some (16 * (← n) + (← hexDigit? c))) (some 0)

def escaped? : Char → Option Char
  | 'b' => some (Char.ofNat 8)
  | 't' => some '\t'
  | 'n' => some '\n'
  | 'f' => some (Char.ofNat 12)
  | 'r' => some '\r'
  | '"' => some '"'
  | '\\' => some '\\'
  | _ => none

/-- The character with the number that hexadecimal digits spell, if there is one. -/
def numbered? (digits : List Char) : Option Char := do
  let n ← hexNumber? digits
  if 0x10FFFF < n ∨ (0xD800 ≤ n ∧ n < 0xE000) then none else some (Char.ofNat n)

/-- The character that an escape spells after its backslash. -/
def escape? : List Char → Option (Char × List Char)
  | 'u' :: a :: b :: c :: d :: rest => (numbered? [a, b, c, d]).map (·, rest)
  | 'U' :: a :: b :: c :: d :: e :: f :: g :: h :: rest =>
    (numbered? [a, b, c, d, e, f, g, h]).map (·, rest)
  | c :: rest => (escaped? c).map (·, rest)
  | [] => none

/-- The rest of a basic string after its opening quote. -/
def basicBody : (fuel : Nat) → List Char → Option (List Char × List Char)
  | 0, _ => none
  | _, [] => none
  | fuel + 1, c :: rest =>
    if c = '"' then some ([], rest)
    else if c = '\n' then none
    else if c = '\\' then do
      let (e, rest) ← escape? rest
      let (cs, rest) ← basicBody fuel rest
      some (e :: cs, rest)
    else do
      let (cs, rest) ← basicBody fuel rest
      some (c :: cs, rest)

/-- The rest of a literal string after its opening quote. -/
def literalBody : List Char → Option (List Char × List Char)
  | [] => none
  | c :: rest =>
    if c = '\'' then some ([], rest)
    else if c = '\n' then none
    else (literalBody rest).map fun (cs, rest) => (c :: cs, rest)

def isSpace (c : Char) : Bool := c = ' ' || c = '\t'

/-- A backslash at the end of a line removes the blanks up to the next word. -/
def continued? (cs : List Char) : Option (List Char) :=
  match cs.dropWhile fun c => isSpace c || c = '\r' with
  | '\n' :: rest => some (rest.dropWhile fun c => isSpace c || c = '\r' || c = '\n')
  | _ => none

/-- The rest of a string over several lines. Up to two quotes may stand before the closing three. -/
def longBody (mark : Char) : (fuel : Nat) → List Char → Option (List Char × List Char)
  | 0, _ => none
  | _, [] => none
  | fuel + 1, c :: rest =>
    if c = mark then
      let quotes := (rest.takeWhile (· = mark)).length + 1
      if quotes < 3 then do
        let (cs, rest) ← longBody mark fuel (rest.drop (quotes - 1))
        some (List.replicate quotes mark ++ cs, rest)
      else if quotes ≤ 5 then some (List.replicate (quotes - 3) mark, rest.drop (quotes - 1))
      else none
    else if mark = '"' ∧ c = '\\' then
      match continued? rest with
      | some rest => longBody mark fuel rest
      | none => do
        let (e, rest) ← escape? rest
        let (cs, rest) ← longBody mark fuel rest
        some (e :: cs, rest)
    else do
      let (cs, rest) ← longBody mark fuel rest
      some (c :: cs, rest)

/-- The first line break of a string over several lines does not count. -/
def dropFirstBreak : List Char → List Char
  | '\n' :: rest | '\r' :: '\n' :: rest => rest
  | cs => cs

/-- A string in any of the four forms. -/
def string? (cs : List Char) : Option (String × List Char) :=
  let text := Option.map fun (p : List Char × List Char) => (String.ofList p.1, p.2)
  match cs with
  | '"' :: '"' :: '"' :: rest => text (longBody '"' (rest.length + 1) (dropFirstBreak rest))
  | '\'' :: '\'' :: '\'' :: rest => text (longBody '\'' (rest.length + 1) (dropFirstBreak rest))
  | '"' :: rest => text (basicBody (rest.length + 1) rest)
  | '\'' :: rest => text (literalBody rest)
  | _ => none

end FlowRecovery.Toml

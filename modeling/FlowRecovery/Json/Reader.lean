import FlowRecovery.Json.Basic

/-! Reading JSON text. Each reader takes the characters ahead and gives back what it read with the
characters that follow; every nested value costs a unit of fuel, and no text nests deeper than it
is long. -/
namespace FlowRecovery.Json

def isBlank (c : Char) : Bool := c = ' ' || c = '\n' || c = '\t' || c = '\r'

def skipBlanks (cs : List Char) : List Char := cs.dropWhile isBlank

def word? : (word : List Char) → List Char → Option (List Char)
  | [], cs => some cs
  | w :: word, c :: cs => if w = c then word? word cs else none
  | _ :: _, [] => none

/-! ### Strings -/

def hexValue? (c : Char) : Option Nat :=
  if '0' ≤ c ∧ c ≤ '9' then some (c.toNat - '0'.toNat)
  else if 'a' ≤ c ∧ c ≤ 'f' then some (c.toNat - 'a'.toNat + 10)
  else if 'A' ≤ c ∧ c ≤ 'F' then some (c.toNat - 'A'.toNat + 10)
  else none

def hex4? (a b c d : Char) : Option Nat := do
  some (((← hexValue? a) * 16 + (← hexValue? b)) * 256 + (← hexValue? c) * 16 + (← hexValue? d))

def shortEscape? : Char → Option Char
  | '"' => some '"'
  | '\\' => some '\\'
  | '/' => some '/'
  | 'b' => some (Char.ofNat 8)
  | 'f' => some (Char.ofNat 12)
  | 'n' => some '\n'
  | 'r' => some '\r'
  | 't' => some '\t'
  | _ => none

/-- The rest of a string after its opening quote, as code points; an escape may spell half of a
pair. -/
def stringBody : List Char → Option (List Nat × List Char)
  | [] => none
  | '"' :: rest => some ([], rest)
  | '\\' :: 'u' :: a :: b :: c :: d :: rest => do
    let n ← hex4? a b c d
    let (ns, rest) ← stringBody rest
    some (n :: ns, rest)
  | '\\' :: e :: rest => do
    let c ← shortEscape? e
    let (ns, rest) ← stringBody rest
    some (c.toNat :: ns, rest)
  | c :: rest =>
    if c.toNat < 32 ∨ c = '\\' then none
    else do
      let (ns, rest) ← stringBody rest
      some (c.toNat :: ns, rest)

def isHighUnit (n : Nat) : Bool := 0xD800 ≤ n && n < 0xDC00

def isLowUnit (n : Nat) : Bool := 0xDC00 ≤ n && n < 0xE000

/-- The character of a code point; half of a pair that stands alone has none. -/
def unitChar (n : Nat) : Char :=
  if isHighUnit n ∨ isLowUnit n then Char.ofNat 0xFFFD else Char.ofNat n

/-- Joins the two halves of a pair. -/
def joinUnits : List Nat → List Char
  | high :: low :: rest =>
    if isHighUnit high && isLowUnit low then
      Char.ofNat (0x10000 + (high - 0xD800) * 1024 + (low - 0xDC00)) :: joinUnits rest
    else unitChar high :: joinUnits (low :: rest)
  | [n] => [unitChar n]
  | [] => []

def string? : List Char → Option (String × List Char)
  | '"' :: rest => (stringBody rest).map fun (ns, rest) => (String.ofList (joinUnits ns), rest)
  | _ => none

/-! ### Numbers -/

def isNumberChar (c : Char) : Bool :=
  c.isDigit || c = '-' || c = '+' || c = '.' || c = 'e' || c = 'E'

def digitsValue (cs : List Char) : Nat := cs.foldl (fun n c => 10 * n + (c.toNat - '0'.toNat)) 0

/-- A number is an integer when nothing but a minus sign and digits spell it. -/
def number? (cs : List Char) : Option (Json × List Char) :=
  let literal := cs.takeWhile isNumberChar
  let rest := cs.dropWhile isNumberChar
  match literal with
  | [] => none
  | '-' :: digits =>
    if digits ≠ [] ∧ digits.all Char.isDigit then some (int (-(digitsValue digits : Int)), rest)
    else some (real (String.ofList literal), rest)
  | digits =>
    if digits.all Char.isDigit then some (int (digitsValue digits), rest)
    else some (real (String.ofList literal), rest)

/-! ### Values -/

mutual

def value? : (fuel : Nat) → List Char → Option (Json × List Char)
  | 0, _ => none
  | fuel + 1, cs =>
    match skipBlanks cs with
    | '"' :: rest => (string? ('"' :: rest)).map fun (s, rest) => (str s, rest)
    | '[' :: rest =>
      match skipBlanks rest with
      | ']' :: rest => some (arr [], rest)
      | rest => (items? fuel rest).map fun (items, rest) => (arr items, rest)
    | '{' :: rest =>
      match skipBlanks rest with
      | '}' :: rest => some (obj [], rest)
      | rest => (fields? fuel rest).map fun (fields, rest) => (obj fields, rest)
    | 't' :: rest => (word? "rue".toList rest).map (bool true, ·)
    | 'f' :: rest => (word? "alse".toList rest).map (bool false, ·)
    | 'n' :: rest => (word? "ull".toList rest).map (null, ·)
    | rest => number? rest

def items? : (fuel : Nat) → List Char → Option (List Json × List Char)
  | 0, _ => none
  | fuel + 1, cs => do
    let (item, rest) ← value? fuel cs
    match skipBlanks rest with
    | ',' :: rest =>
      let (items, rest) ← items? fuel rest
      some (item :: items, rest)
    | ']' :: rest => some ([item], rest)
    | _ => none

def fields? : (fuel : Nat) → List Char → Option (List (String × Json) × List Char)
  | 0, _ => none
  | fuel + 1, cs => do
    let (name, rest) ← string? (skipBlanks cs)
    let rest ← word? [':'] (skipBlanks rest)
    let (value, rest) ← value? fuel rest
    match skipBlanks rest with
    | ',' :: rest =>
      let (fields, rest) ← fields? fuel rest
      some ((name, value) :: fields, rest)
    | '}' :: rest => some ([(name, value)], rest)
    | _ => none

end

/-- The document that the whole text spells. -/
def parse? (s : String) : Option Json := do
  let cs := s.toList
  let (j, rest) ← value? (cs.length + 1) cs
  if skipBlanks rest = [] then some j else none

end FlowRecovery.Json

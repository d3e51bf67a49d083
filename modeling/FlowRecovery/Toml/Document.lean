import FlowRecovery.Toml.Quoted
import FlowRecovery.Toml.Store

/-! TOML documents: headings, lines with a key and a value, and comments. A table in braces opens
its own path while it is read, just as a heading does. -/
namespace FlowRecovery.Toml

def isBareChar (c : Char) : Bool := c.isAlphanum || c = '_' || c = '-'

def skipSpaces (cs : List Char) : List Char := cs.dropWhile isSpace

def skipComment : List Char → List Char
  | '#' :: rest => rest.dropWhile (· ≠ '\n')
  | cs => cs

/-- Skips blanks, line breaks and comments. -/
def skipLines : (fuel : Nat) → List Char → List Char
  | 0, cs => cs
  | fuel + 1, cs =>
    match cs.dropWhile fun c => isSpace c || c = '\r' || c = '\n' with
    | '#' :: rest => skipLines fuel (skipComment ('#' :: rest))
    | cs => cs

/-- The end of a line, behind blanks and a comment. -/
def endLine? (cs : List Char) : Option (List Char) :=
  match (skipComment (skipSpaces cs)).dropWhile (· = '\r') with
  | [] => some []
  | '\n' :: rest => some rest
  | _ => none

/-- One part of a key: bare, or a string on one line. -/
def keyPart? (cs : List Char) : Option (String × List Char) :=
  match cs with
  | '"' :: rest =>
    (basicBody (rest.length + 1) rest).map fun (cs, rest) => (String.ofList cs, rest)
  | '\'' :: rest => (literalBody rest).map fun (cs, rest) => (String.ofList cs, rest)
  | _ =>
    let bare := cs.takeWhile isBareChar
    if bare.isEmpty then none else some (String.ofList bare, cs.dropWhile isBareChar)

/-- A key with points between its parts. -/
def key? : (fuel : Nat) → List Char → Option (Path × List Char)
  | 0, _ => none
  | fuel + 1, cs => do
    let (part, rest) ← keyPart? (skipSpaces cs)
    match skipSpaces rest with
    | '.' :: rest => do
      let (parts, rest) ← key? fuel rest
      some (part :: parts, rest)
    | rest => some ([part], rest)

def isAtomChar (c : Char) : Bool :=
  c.isAlphanum || c = '_' || c = '-' || c = '+' || c = '.' || c = ':'

/-- An atom; a space may stand between a date and a time. -/
def atomValue? (cs : List Char) : Option (Value × List Char) :=
  let word := cs.takeWhile isAtomChar
  let rest := cs.dropWhile isAtomChar
  match date? word, rest with
  | some [], ' ' :: d :: more =>
    if d.isDigit then
      let whole := word ++ ' ' :: (d :: more).takeWhile isAtomChar
      (atom? whole).map fun a => (.atom a, (d :: more).dropWhile isAtomChar)
    else (atom? word).map fun a => (.atom a, rest)
  | _, _ => (atom? word).map fun a => (.atom a, rest)

/-- What was read, what is left of the text, and the tables so far. -/
abbrev Step (α : Type) := α × List Char × Store

mutual

/-- The value for the key at `path`, which may be one of several in an array. -/
def value? (inArray : Bool) (path : Path) : (fuel : Nat) → List Char → Store → Option (Step Value)
  | 0, _, _ => none
  | fuel + 1, cs, s =>
    match skipSpaces cs with
    | '[' :: rest => do
      let (items, rest, s) ← items? path fuel rest (s.note path true)
      some (.arr items, rest, s)
    | '{' :: rest => do
      let s := s.passing path
      let s ← if inArray then s.openNext path else s.openTable path
      let (rest, s) ← match skipSpaces rest with
        | '}' :: rest => some (rest, s)
        | rest => (inline? path fuel rest s).map (·.2)
      some (.table (← Entries.tableAt? path s.root), rest, s)
    | '"' :: rest => (string? ('"' :: rest)).map fun (text, rest) => (.str text, rest, s)
    | '\'' :: rest => (string? ('\'' :: rest)).map fun (text, rest) => (.str text, rest, s)
    | cs => (atomValue? cs).map fun (v, rest) => (v, rest, s)

/-- The items of an array after its opening bracket; a comma may stand after the last one. -/
def items? (path : Path) : (fuel : Nat) → List Char → Store → Option (Step (List Value))
  | 0, _, _ => none
  | fuel + 1, cs, s =>
    match skipLines (cs.length + 1) cs with
    | ']' :: rest => some ([], rest, s)
    | cs => do
      let (item, rest, s) ← value? true path fuel cs s
      match skipLines (rest.length + 1) rest with
      | ',' :: rest => do
        let (items, rest, s) ← items? path fuel rest s
        some (item :: items, rest, s)
      | ']' :: rest => some ([item], rest, s)
      | _ => none

/-- The entries of a table in braces, all on one line. -/
def inline? (path : Path) : (fuel : Nat) → List Char → Store → Option (Step Unit)
  | 0, _, _ => none
  | fuel + 1, cs, s => do
    let (_, rest, s) ← assignment? path fuel cs s
    match skipSpaces rest with
    | ',' :: rest => inline? path fuel rest s
    | '}' :: rest => some ((), rest, s)
    | _ => none

/-- A key and its value, in the table at `context`. -/
def assignment? (context : Path) : (fuel : Nat) → List Char → Store → Option (Step Unit)
  | 0, _, _ => none
  | fuel + 1, cs, s => do
    let (key, rest) ← key? (cs.length + 1) cs
    match rest with
    | '=' :: rest => do
      let last ← key.getLast?
      let table := context ++ key.dropLast
      let s ← Store.passThrough context key.dropLast s
      let (v, rest, s) ← value? false (table ++ [last]) fuel rest s
      let s ← s.put table last v
      some ((), rest, s.note (table ++ [last]) v.isArray)
    | _ => none

end

/-- A heading after its first bracket: one table in one pair of brackets, one more in two. -/
def heading? (cs : List Char) (s : Store) : Option (Step Path) :=
  match cs with
  | '[' :: rest => do
    let (path, rest) ← key? (rest.length + 1) rest
    match rest with
    | ']' :: ']' :: rest => do
      let s ← s.openNext path
      some (path, ← endLine? rest, s.note path false)
    | _ => none
  | _ => do
    let (path, rest) ← key? (cs.length + 1) cs
    match rest with
    | ']' :: rest => do
      let s ← s.openTable path
      some (path, ← endLine? rest, s.note path false)
    | _ => none

/-- The lines of a document; those with a value go to the table of the last heading. -/
def lines? (context : Path) : (fuel : Nat) → List Char → Store → Option Store
  | 0, _, _ => none
  | fuel + 1, cs, s =>
    match skipLines (cs.length + 1) cs with
    | [] => some s
    | '[' :: rest => do
      let (path, rest, s) ← heading? rest s
      lines? path fuel rest s
    | cs => do
      let (_, rest, s) ← assignment? context (2 * cs.length + 4) cs s
      lines? context fuel (← endLine? rest) s

/-- No control characters but tabs and line breaks, and carriage returns only before a line feed. -/
def isClean : List Char → Bool
  | [] => true
  | '\r' :: rest => rest.head? = some '\n' && isClean rest
  | c :: rest => (c = '\t' || c = '\n' || (32 ≤ c.toNat && c.toNat ≠ 127)) && isClean rest

/-- The text of a file. A mark of two bytes in front, which belongs to no such text, is passed over. -/
def text? (bytes : ByteArray) : Option String :=
  String.fromUTF8? <|
    match bytes.data.toList.take 2 with
    | [0xFF, 0xFE] | [0xFE, 0xFF] => bytes.extract 2 bytes.size
    | _ => bytes

/-- The entries of a document. A byte order mark may stand in front. -/
def parse? (s : String) : Option Entries :=
  let cs := match s.toList with
    | c :: rest => if c.toNat = 0xFEFF then rest else c :: rest
    | [] => []
  if isClean cs then (lines? [] (cs.length + 1) cs {}).map (·.root) else none

end FlowRecovery.Toml

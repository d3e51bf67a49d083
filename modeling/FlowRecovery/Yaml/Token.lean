import FlowRecovery.Yaml.Text

/-! The tokens of a YAML text. Indentation opens and closes block collections, and a key needs no
mark of its own: whether a token was the start of a key is known only when the colon behind it is
met, on the same line and not too far away. So the places where a key may have started are kept,
one for each level of brackets, and the tokens that open a mapping and a key are put in there
later. Neither brackets nor blocks may be nested beyond a limit. -/
namespace FlowRecovery.Yaml

inductive Token where
  | streamEnd
  | version (major minor : Nat)
  | tagHandle (handle expansion : String)
  | documentStart
  | documentEnd
  | blockSequence
  | blockMapping
  | blockEnd
  | flowSequence
  | flowSequenceEnd
  | flowMapping
  | flowMappingEnd
  | blockEntry
  | flowEntry
  | key
  | value
  | mention (name : String)
  | anchor (name : String)
  | tag (handle suffix : String)
  | scalar (text : String) (plain : Bool)
deriving DecidableEq, Repr, Inhabited

/-- A token that may turn out to start a key. -/
structure KeyStart where
  /-- It has to be a key, since it stands where the entries of a mapping start. -/
  required : Bool
  token : Nat
  index : Nat
  line : Nat
  column : Nat
deriving Repr

structure Lexer where
  cursor : Cursor
  tokens : Array Token := #[]
  /-- The column of the innermost block collection. -/
  indent : Int := -1
  outer : List Int := []
  flowLevel : Nat := 0
  keyAllowed : Bool := true
  keyStart : Option KeyStart := none
  outerKeys : List (Option KeyStart) := []
deriving Inhabited

namespace Lexer

def push (l : Lexer) (t : Token) : Lexer := { l with tokens := l.tokens.push t }

def inFlow (l : Lexer) : Bool := 0 < l.flowLevel

/-- The key start has not been left behind. -/
def KeyStart.inReach (k : KeyStart) (c : Cursor) : Bool :=
  c.line ≤ k.line && c.index ≤ k.index + 1024

/-- Gives up the key start of this level, unless it had to be a key. -/
def dropKey (l : Lexer) : Option Lexer :=
  match l.keyStart with
  | some k => if k.required then none else some { l with keyStart := none }
  | none => some l

/-- Notes that the next token may start a key. -/
def saveKey (l : Lexer) : Option Lexer :=
  if l.keyAllowed then do
    let l ← l.dropKey
    let c := l.cursor
    some { l with
      keyStart := some
        { required := !l.inFlow && l.indent = c.column
          token := l.tokens.size, index := c.index, line := c.line, column := c.column } }
  else some l

/-- How deep brackets may be nested, and blocks. -/
def maxDepth : Nat := 10000

/-- Opens a block collection at `column` if it is deeper than the current one. The token goes before
the token number `at?`, or to the end. -/
def openBlock (l : Lexer) (column : Nat) (at? : Option Nat) (t : Token) : Option Lexer :=
  if l.inFlow || (column : Int) ≤ l.indent then some l
  else if maxDepth ≤ l.outer.length then none
  else
    some { l with
      indent := column
      outer := l.indent :: l.outer
      tokens := match at? with
        | some n => l.tokens.insertIdxIfInBounds n t
        | none => l.tokens.push t }

/-- Closes the block collections that are deeper than `column`. -/
def closeBlocks (column : Int) : List Int → Lexer → Lexer
  | [], l => l
  | parent :: outer, l =>
    if l.inFlow || l.indent ≤ column then l
    else closeBlocks column outer { l.push .blockEnd with indent := parent, outer }

def unroll (l : Lexer) (column : Int) : Lexer := closeBlocks column l.outer l

/-! ### Blanks and comments -/

/-- Comment lines after the first one may be indented by tabs as well. -/
def moreComments : (fuel : Nat) → Cursor → Cursor
  | 0, c => c
  | fuel + 1, c =>
    let between := c.ahead.takeWhile fun x => isBlank x || isBreak x
    if (c.ahead.drop between.length).head? = some '#' then
      let rec go : Nat → Cursor → Cursor
        | 0, c => c
        | n + 1, c => if c.looksAt '#' then c else go n (if c.atBreak then c.skipLine else c.skip)
      moreComments fuel ((go (between.length + 1) c).skipWhile (!isBreak ·))
    else c

/-- Moves to the next token. A tab may not stand where a key may start. -/
def toNextToken : (fuel : Nat) → Lexer → Lexer
  | 0, l => l
  | fuel + 1, l =>
    let c := l.cursor
    let c := if c.column = 0 && c.looksAt (Char.ofNat 0xFEFF) then c.skip else c
    let c := c.skipWhile fun x => x = ' ' || ((l.inFlow || !l.keyAllowed) && x = '\t')
    let c :=
      if c.looksAt '#' then
        let c := c.skipWhile (!isBreak ·)
        moreComments c.fuel c
      else c
    if c.atBreak then
      toNextToken fuel { l with cursor := c.skipLine, keyAllowed := l.keyAllowed || !l.inFlow }
    else { l with cursor := c }

/-- A comment on the line of the last token. -/
def lineComment (l : Lexer) : Lexer :=
  if l.cursor.freshLine || l.tokens.back? = some .blockEntry then l
  else
    let c := l.cursor.skipWhile isBlank
    if c.looksAt '#' then { l with cursor := c.skipWhile (!isBreak ·) } else l

/-! ### Directives, tags and anchors -/

def isUriChar (c : Char) : Bool := isWordChar c || ";/?:@&=+$,.!~*'()[]%".toList.contains c

/-- Decodes escapes by two hexadecimal digits, which spell the bytes of characters. -/
def uriBytes? : (fuel : Nat) → List Char → Option (List UInt8)
  | 0, _ => some []
  | _, [] => some []
  | fuel + 1, '%' :: a :: b :: rest => do
    let n := 16 * (← hexDigit? a) + (← hexDigit? b)
    some (n.toUInt8 :: (← uriBytes? fuel rest))
  | _, ['%', _] | _, ['%'] => none
  | fuel + 1, c :: rest => do some ((String.singleton c).toUTF8.toList ++ (← uriBytes? fuel rest))

def uri? (c : Cursor) : Option (String × Cursor) := do
  let cs := c.takeWhile isUriChar
  let bytes ← uriBytes? (cs.length + 1) cs
  let s ← String.fromUTF8? ⟨bytes.toArray⟩
  some (s, c.skipN cs.length)

/-- An exclamation mark, a word and possibly another mark. -/
def handle? (c : Cursor) : Option (List Char × Cursor) :=
  if c.looksAt '!' then
    let c := c.skip
    let word := c.takeWhile isWordChar
    let c := c.skipN word.length
    if c.looksAt '!' then some ('!' :: word ++ ['!'], c.skip) else some ('!' :: word, c)
  else none

def tagToken? (c : Cursor) : Option (Token × Cursor) := do
  let (t, c) ←
    if c.looksAt '<' 1 then do
      let (suffix, c) ← uri? (c.skipN 2)
      if suffix.isEmpty || !c.looksAt '>' then none else some (Token.tag "" suffix, c.skip)
    else do
      let (handle, c) ← handle? c
      if 1 < handle.length && handle.getLast? = some '!' then
        let (suffix, c) ← uri? c
        if suffix.isEmpty then none else some (Token.tag (String.ofList handle) suffix, c)
      else
        let (rest, c) ← uri? c
        let suffix := String.ofList handle.tail ++ rest
        some (if suffix.isEmpty then Token.tag "" "!" else Token.tag "!" suffix, c)
  if c.atGap then some (t, c) else none

def anchorName? (c : Cursor) : Option (String × Cursor) :=
  let name := c.takeWhile isWordChar
  let c := c.skipN name.length
  let ends := c.atGap || (c.peek?).any ("?:,]\x7d%@".push (Char.ofNat 96)).toList.contains
  if name.isEmpty || !ends then none else some (String.ofList name, c)

def number? (c : Cursor) : Option (Nat × Cursor) :=
  let digits := c.takeWhile Char.isDigit
  if digits.isEmpty || 9 < digits.length then none
  else
    some (digits.foldl (fun n d => 10 * n + (d.toNat - '0'.toNat)) 0, c.skipN digits.length)

def directive? (c : Cursor) : Option (Token × Cursor) := do
  let name := c.skip.takeWhile isWordChar
  let c := c.skip.skipN name.length
  if name.isEmpty || !c.atGap then none
  let c := c.skipWhile isBlank
  let (t, c) ←
    if name = "YAML".toList then do
      let (major, c) ← number? c
      if !c.looksAt '.' then none
      let (minor, c) ← number? c.skip
      some (Token.version major minor, c)
    else if name = "TAG".toList then do
      let (handle, c) ← handle? c
      if handle ≠ ['!'] && handle.getLast? ≠ some '!' then none
      if !c.atBlank then none
      let (expansion, c) ← uri? (c.skipWhile isBlank)
      if expansion.isEmpty || !c.atGap then none
      some (Token.tagHandle (String.ofList handle) expansion, c)
    else none
  let c := c.skipWhile isBlank
  let c := if c.looksAt '#' then c.skipWhile (!isBreak ·) else c
  if c.atLineEnd then some (t, c.skipLine) else none

/-! ### One token -/

/-- Takes one character as a token. -/
def mark (l : Lexer) (t : Token) : Lexer := { l.push t with cursor := l.cursor.skip }

def streamEnd (l : Lexer) : Option Lexer := do
  let c := l.cursor
  let c := if c.column = 0 then c else { c with column := 0, line := c.line + 1 }
  let l ← ({ l with cursor := c }.unroll (-1)).dropKey
  some ({ l with keyAllowed := false }.push .streamEnd)

def directive (l : Lexer) : Option Lexer := do
  let l ← (l.unroll (-1)).dropKey
  let (t, c) ← directive? l.cursor
  some { l.push t with cursor := c, keyAllowed := false }

def documentMark (l : Lexer) (t : Token) : Option Lexer := do
  let l ← (l.unroll (-1)).dropKey
  some { l.push t with cursor := l.cursor.skipN 3, keyAllowed := false }

def openFlow (l : Lexer) (t : Token) : Option Lexer := do
  let l ← l.saveKey
  if maxDepth ≤ l.flowLevel then none
  some { l.mark t with
    flowLevel := l.flowLevel + 1, keyAllowed := true
    keyStart := none, outerKeys := l.keyStart :: l.outerKeys }

def closeFlow (l : Lexer) (t : Token) : Option Lexer := do
  let l ← l.dropKey
  let l := match l.outerKeys with
    | k :: ks => { l with flowLevel := l.flowLevel - 1, keyStart := k, outerKeys := ks }
    | [] => l
  some { l.mark t with keyAllowed := false }

def flowEntry (l : Lexer) : Option Lexer := do
  let l ← l.dropKey
  some { l.mark .flowEntry with keyAllowed := true }

def blockEntry (l : Lexer) : Option Lexer := do
  if !l.inFlow && !l.keyAllowed then none
  let l ← (← l.openBlock l.cursor.column none .blockSequence).dropKey
  some { l.mark .blockEntry with keyAllowed := true }

def explicitKey (l : Lexer) : Option Lexer := do
  if !l.inFlow && !l.keyAllowed then none
  let l ← (← l.openBlock l.cursor.column none .blockMapping).dropKey
  some { l.mark .key with keyAllowed := !l.inFlow }

/-- A colon makes a key of the key start of this level, if there is one in reach. -/
def valueMark (l : Lexer) : Option Lexer :=
  let complex (l : Lexer) : Option Lexer := do
    if !l.inFlow && !l.keyAllowed then none
    let l ← l.openBlock l.cursor.column none .blockMapping
    some { l.mark .value with keyAllowed := !l.inFlow }
  match l.keyStart with
  | none => complex l
  | some k =>
    if KeyStart.inReach k l.cursor then
      let l := { l with tokens := l.tokens.insertIdxIfInBounds k.token .key, keyStart := none }
      (l.openBlock k.column (some k.token) .blockMapping).map fun l =>
        { l.mark .value with keyAllowed := false }
    else if k.required then none
    else complex { l with keyStart := none }

def named (l : Lexer) (make : String → Token) : Option Lexer := do
  let l ← l.saveKey
  let (name, c) ← anchorName? l.cursor.skip
  some { l.push (make name) with cursor := c, keyAllowed := false }

def tagMark (l : Lexer) : Option Lexer := do
  let l ← l.saveKey
  let (t, c) ← tagToken? l.cursor
  some { l.push t with cursor := c, keyAllowed := false }

def block (l : Lexer) (literal : Bool) : Option Lexer := do
  let l ← l.dropKey
  let (text, c) ← blockScalar literal l.indent l.cursor
  some { l.push (.scalar (String.ofList text) false) with cursor := c, keyAllowed := true }

def quoted (l : Lexer) (q : Char) : Option Lexer := do
  let l ← l.saveKey
  let (text, c) ← quotedScalar q l.cursor
  some { l.push (.scalar (String.ofList text) false) with cursor := c, keyAllowed := false }

def plain (l : Lexer) : Option Lexer := do
  let l ← l.saveKey
  let (text, c, broken) ←
    plainWords l.inFlow (l.indent + 1).toNat l.cursor.fuel l.cursor {}
  some { l.push (.scalar (String.ofList text) true) with cursor := c, keyAllowed := broken }

/-- Whether a plain scalar can start here. -/
def startsPlain (l : Lexer) : Bool :=
  let c := l.cursor
  match c.peek? with
  | none => false
  | some x =>
    (!isBlank x && !isBreak x && x.toNat ≠ 96 && !"-?:,[]\x7b\x7d#&*!|>'\"%@".toList.contains x)
      || (x = '-' && !c.atBlank 1)
      || (!l.inFlow && (x = '?' || x = ':') && !c.atGap 1)

/-- The token at the cursor, which is neither a blank nor a comment. -/
def token (l : Lexer) : Option Lexer :=
  let c := l.cursor
  match c.peek? with
  | none => l.streamEnd
  | some x =>
    if c.column = 0 && x = '%' then l.directive
    else if c.atMark '-' then l.documentMark .documentStart
    else if c.atMark '.' then l.documentMark .documentEnd
    else
      let next : Option Lexer :=
        match x with
        | '[' => l.openFlow .flowSequence
        | '{' => l.openFlow .flowMapping
        | ']' => l.closeFlow .flowSequenceEnd
        | '}' => l.closeFlow .flowMappingEnd
        | ',' => l.flowEntry
        | '*' => l.named .mention
        | '&' => l.named .anchor
        | '!' => l.tagMark
        | '\'' => l.quoted '\''
        | '"' => l.quoted '"'
        | _ =>
          if x = '-' && c.atGap 1 then l.blockEntry
          else if x = '?' && (l.inFlow || c.atGap 1) then l.explicitKey
          else if x = ':' && (l.inFlow || c.atGap 1) then l.valueMark
          else if x = '|' && !l.inFlow then l.block true
          else if x = '>' && !l.inFlow then l.block false
          else if l.startsPlain then l.plain
          else none
      next.map lineComment

/-- Moves to the next token and takes it, closing the blocks that end before it. -/
def step (l : Lexer) : Option Lexer :=
  let l := toNextToken l.cursor.fuel l
  (l.unroll l.cursor.column).token

end Lexer

/-- All tokens of a text, up to its end or to the first that cannot be read. -/
structure Tokens where
  tokens : Array Token
  /-- Reading stopped early. -/
  broken : Bool
  /-- Tokens that may still have started a key when reading stopped. -/
  undecided : List Nat
deriving Inhabited

namespace Tokens

def pending (l : Lexer) : List Nat :=
  (l.keyStart :: l.outerKeys).filterMap fun k =>
    k.bind fun k => if Lexer.KeyStart.inReach k l.cursor then some k.token else none

def readFrom : (fuel : Nat) → Lexer → Tokens
  | 0, l => ⟨l.tokens, true, []⟩
  | fuel + 1, l =>
    match l.step with
    | none => ⟨l.tokens, true, pending l⟩
    | some l =>
      if l.tokens.back? = some .streamEnd then ⟨l.tokens, false, []⟩ else readFrom fuel l

def ofText (cs : List Char) : Tokens :=
  readFrom (cs.length + 2) { cursor := { ahead := cs } }

/-- The token number `n`. Reading keeps two tokens ahead and decides first whether the token starts a
key, so a text that breaks off there has no such token. -/
def get? (t : Tokens) (n : Nat) : Option Token :=
  if t.broken && (t.tokens.size ≤ n + 2 || t.undecided.contains n) then none
  else some (t.tokens[n]?.getD .streamEnd)

end Tokens

end FlowRecovery.Yaml

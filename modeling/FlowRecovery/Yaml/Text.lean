import FlowRecovery.Yaml.Cursor

/-! The text of scalars. Words are joined over the gaps between them: blanks inside a line are kept,
a single line break becomes a space, and of several line breaks the first is dropped. -/
namespace FlowRecovery.Yaml

/-- Blanks and line breaks between two words. -/
structure Gap where
  /-- A line ended in the gap. -/
  broken : Bool := false
  /-- Blanks before the end of the line. -/
  blanks : List Char := []
  first : Option Char := none
  more : List Char := []
deriving Repr

namespace Gap

def text (g : Gap) : List Char :=
  if !g.broken then g.blanks
  else match g.first with
    | some '\n' => if g.more.isEmpty then [' '] else g.more
    | some b => b :: g.more
    | none => g.more

/-- Reads blanks and line breaks. A tab may not stand where a later line has to be indented. -/
def read (indent : Nat) : (fuel : Nat) → Cursor → Gap → Option (Cursor × Gap)
  | 0, c, g => some (c, g)
  | fuel + 1, c, g =>
    match c.peek? with
    | none => some (c, g)
    | some x =>
      if isBlank x then
        if g.broken && x = '\t' && c.column < indent then none
        else read indent fuel c.skip (if g.broken then g else { g with blanks := g.blanks ++ [x] })
      else match c.lineBreak? with
        | none => some (c, g)
        | some b =>
          if g.broken then read indent fuel c.skipLine { g with more := g.more ++ [b] }
          else read indent fuel c.skipLine { g with broken := true, blanks := [], first := some b }

end Gap

/-! ### Plain scalars -/

/-- Ends a word of a plain scalar. -/
def endsPlain (inFlow : Bool) (c : Cursor) : Bool :=
  match c.peek? with
  | none => true
  | some x =>
    isBlank x || isBreak x || (x = ':' && c.atGap 1)
      || (inFlow && (x = ',' || x = '?' || x = '[' || x = ']' || x = '{' || x = '}'))

def plainWord (inFlow : Bool) : (fuel : Nat) → Cursor → List Char × Cursor
  | 0, c => ([], c)
  | fuel + 1, c =>
    if endsPlain inFlow c then ([], c)
    else
      let (word, rest) := plainWord inFlow fuel c.skip
      (c.ahead.take 1 ++ word, rest)

/-- The words of a plain scalar from `c` on. The flag says whether a line ended after the last
word. -/
def plainWords (inFlow : Bool) (indent : Nat) : (fuel : Nat) → Cursor → Gap →
    Option (List Char × Cursor × Bool)
  | 0, c, g => some ([], c, g.broken)
  | fuel + 1, c, g =>
    if c.atDocumentMark || c.looksAt '#' then some ([], c, g.broken)
    else
      let (word, c) := plainWord inFlow c.fuel c
      let (shown, g) := if word.isEmpty then ([], g) else (g.text ++ word, {})
      if !c.atBlank && !c.atBreak then some (shown, c, g.broken)
      else do
        let (c, g) ← Gap.read indent c.fuel c {}
        if !inFlow && c.column < indent then some (shown, c, g.broken)
        else
          let (more, c, broken) ← plainWords inFlow indent fuel c g
          some (shown ++ more, c, broken)

/-! ### Quoted scalars -/

def hexDigit? (c : Char) : Option Nat :=
  if '0' ≤ c ∧ c ≤ '9' then some (c.toNat - '0'.toNat)
  else if 'a' ≤ c ∧ c ≤ 'f' then some (c.toNat - 'a'.toNat + 10)
  else if 'A' ≤ c ∧ c ≤ 'F' then some (c.toNat - 'A'.toNat + 10)
  else none

def hexNumber? (cs : List Char) : Option Nat :=
  cs.foldl (fun n c => do some (16 * (← n) + (← hexDigit? c))) (some 0)

/-- Escapes of one letter. -/
def escaped? : Char → Option Char
  | '0' => some (Char.ofNat 0)
  | 'a' => some (Char.ofNat 7)
  | 'b' => some (Char.ofNat 8)
  | 't' | '\t' => some '\t'
  | 'n' => some '\n'
  | 'v' => some (Char.ofNat 11)
  | 'f' => some (Char.ofNat 12)
  | 'r' => some '\r'
  | 'e' => some (Char.ofNat 27)
  | ' ' => some ' '
  | '"' => some '"'
  | '\'' => some '\''
  | '/' => some '/'
  | '\\' => some '\\'
  | 'N' => some (Char.ofNat 0x85)
  | '_' => some (Char.ofNat 0xA0)
  | 'L' => some (Char.ofNat 0x2028)
  | 'P' => some (Char.ofNat 0x2029)
  | _ => none

/-- The number of digits of an escape by number. -/
def escapeWidth? : Char → Option Nat
  | 'x' => some 2
  | 'u' => some 4
  | 'U' => some 8
  | _ => none

/-- The character that an escape spells, and the cursor behind it. -/
def escape? (c : Cursor) : Option (Char × Cursor) := do
  let mark ← c.peek? 1
  match escapeWidth? mark with
  | none => some (← escaped? mark, c.skipN 2)
  | some width =>
    let digits := (c.ahead.drop 2).take width
    let n ← hexNumber? digits
    if digits.length < width ∨ 0x10FFFF < n ∨ (0xD800 ≤ n ∧ n < 0xE000) then none
    else some (Char.ofNat n, c.skipN (2 + width))

/-- A run of characters without gaps, up to the closing quote. The flag says whether it ended at
an escaped line break. -/
def quotedRun (mark : Char) : (fuel : Nat) → Cursor → Option (List Char × Cursor × Bool)
  | 0, c => some ([], c, false)
  | fuel + 1, c =>
    match c.peek? with
    | none => some ([], c, false)
    | some x =>
      if isBlank x || isBreak x then some ([], c, false)
      else if x = mark then
        if mark = '\'' ∧ c.looksAt '\'' 1 then do
          let (cs, c, folded) ← quotedRun mark fuel (c.skipN 2)
          some ('\'' :: cs, c, folded)
        else some ([], c, false)
      else if mark = '"' ∧ x = '\\' then
        if c.atBreak 1 then some ([], c.skip.skipLine, true)
        else do
          let (e, c) ← escape? c
          let (cs, c, folded) ← quotedRun mark fuel c
          some (e :: cs, c, folded)
      else do
        let (cs, c, folded) ← quotedRun mark fuel c.skip
        some (x :: cs, c, folded)

/-- The text up to the closing quote, and the cursor at it. -/
def quotedText (mark : Char) : (fuel : Nat) → Cursor → Option (List Char × Cursor)
  | 0, _ => none
  | fuel + 1, c =>
    if c.atDocumentMark || c.isEnd then none
    else do
      let (run, c, folded) ← quotedRun mark c.fuel c
      if c.looksAt mark then some (run, c)
      else
        let (c, gap) ← Gap.read 0 c.fuel c { broken := folded }
        let (more, c) ← quotedText mark fuel c
        some (run ++ gap.text ++ more, c)

/-- A scalar between quotes. -/
def quotedScalar (mark : Char) (c : Cursor) : Option (List Char × Cursor) := do
  let c := c.skip
  let (text, c) ← quotedText mark c.fuel c
  some (text, c.skip)

/-! ### Block scalars -/

/-- What happens to the line breaks at the end. -/
inductive Chomp where
  | strip
  | clip
  | keep
deriving DecidableEq, Repr

def chomp? (c : Cursor) : Option (Chomp × Cursor) :=
  if c.looksAt '+' then some (.keep, c.skip)
  else if c.looksAt '-' then some (.strip, c.skip)
  else none

/-- An indentation of one to nine. -/
def increment? (c : Cursor) : Option (Nat × Cursor) :=
  (c.peek?).bind fun x => if x.isDigit then some (x.toNat - '0'.toNat, c.skip) else none

/-- Chomping and indentation, in either order; an indentation of zero is refused. -/
def blockHeader (c : Cursor) : Option (Chomp × Nat × Cursor) :=
  let (chomp, increment, c) : Chomp × Option Nat × Cursor :=
    match chomp? c with
    | some (chomp, c) =>
      match increment? c with
      | some (n, c) => (chomp, some n, c)
      | none => (chomp, none, c)
    | none =>
      match increment? c with
      | some (n, c) =>
        match chomp? c with
        | some (chomp, c) => (chomp, some n, c)
        | none => (.clip, some n, c)
      | none => (.clip, none, c)
  if increment = some 0 then none
  else
    let c := c.skipWhile isBlank
    let c := if c.looksAt '#' then c.skipWhile (!isBreak ·) else c
    if c.atLineEnd then some (chomp, increment.getD 0, c.skipLine) else none

/-- Indentation and empty lines. An `indent` of zero is not known yet. Gives the line breaks and the
largest indentation met. -/
def blockBreaks (indent : Nat) : (fuel : Nat) → Cursor → (widest : Nat) →
    Option (List Char × Cursor × Nat)
  | 0, c, widest => some ([], c, widest)
  | fuel + 1, c, widest =>
    let spaces := (c.takeWhile (· = ' ')).length
    let c := c.skipN (if indent = 0 then spaces else min spaces (indent - c.column))
    let widest := max widest c.column
    if (indent = 0 || c.column < indent) && c.looksAt '\t' then none
    else match c.lineBreak? with
      | none => some ([], c, widest)
      | some b => do
        let (bs, c, widest) ← blockBreaks indent fuel c.skipLine widest
        some (b :: bs, c, widest)

/-- The lines of a block scalar. `pending` is the break of the line before, `breaks` the empty lines
after it, and `blank` says whether that line began with a blank. -/
def blockLines (literal : Bool) (indent : Nat) : (fuel : Nat) → Cursor →
    (pending breaks : List Char) → (blank : Bool) →
    Option (List Char × List Char × List Char × Cursor)
  | 0, c, pending, breaks, _ => some ([], pending, breaks, c)
  | fuel + 1, c, pending, breaks, blank =>
    if c.column ≠ indent ∨ c.isEnd then some ([], pending, breaks, c)
    else
      let startsBlank := c.atBlank
      let joined :=
        if !literal && !blank && !startsBlank && pending.head? = some '\n' then
          if breaks.isEmpty then [' '] else []
        else pending
      let line := c.takeWhile (!isBreak ·)
      let c := c.skipWhile (!isBreak ·)
      let ended := c.lineBreak?.toList
      do
        let (empties, c, _) ← blockBreaks indent c.fuel c.skipLine 0
        let (more, pending, rest, c) ← blockLines literal indent fuel c ended empties startsBlank
        some (joined ++ breaks ++ line ++ more, pending, rest, c)

/-- A block scalar; `parent` is the indentation around it. -/
def blockScalar (literal : Bool) (parent : Int) (c : Cursor) : Option (List Char × Cursor) := do
  let (chomp, increment, c) ← blockHeader c.skip
  let given := if increment = 0 then 0 else (max parent 0).toNat + increment
  let (breaks, c, widest) ← blockBreaks given c.fuel c 0
  let indent := if given = 0 then max widest (max (parent + 1).toNat 1) else given
  let (text, pending, breaks, c) ← blockLines literal indent c.fuel c [] breaks false
  let tail := match chomp with
    | .strip => []
    | .clip => pending
    | .keep => pending ++ breaks
  some (text ++ tail, c)

end FlowRecovery.Yaml

import FlowRecovery.Yaml.Resolve
import FlowRecovery.Yaml.Token

/-! The tree of a document. Aliases keep the tree they stand for; a tree cannot contain itself. -/
namespace FlowRecovery.Yaml

inductive Node where
  | scalar (tag : Tag) (text : String)
  | seq (items : List Node)
  | map (entries : List (Node × Node))
  | mention (name : String) (target : Node)
deriving Inhabited, Repr

namespace Node

/-- A node that is not there. -/
def empty : Node := scalar .null ""

/-- The node itself, or the one that a mention stands for. -/
def target : Node → Node
  | mention _ n => n
  | n => n

end Node

/-- The anchors seen so far; the tree of an anchor is known when it is complete. -/
structure Anchor where
  name : String
  id : Nat
  node : Option Node := none

structure Reading where
  tokens : Tokens
  pos : Nat := 0
  anchors : List Anchor := []
  nextAnchor : Nat := 0
  handles : List (String × String) := []

abbrev Parse := StateT Reading Option

namespace Parse

def peek : Parse Token := do
  let r ← get
  r.tokens.get? r.pos

def skip : Parse Unit := modify fun r => { r with pos := r.pos + 1 }

def fail {α : Type} : Parse α := fun _ => none

def anchored (name : String) : Parse Nat := do
  let r ← get
  set { r with
    anchors := { name, id := r.nextAnchor } :: r.anchors, nextAnchor := r.nextAnchor + 1 }
  return r.nextAnchor

/-- The tree of an anchor is complete. -/
def complete (id? : Option Nat) (n : Node) : Parse Node := do
  match id? with
  | none => return n
  | some id =>
    modify fun r =>
      { r with anchors := r.anchors.map fun a => if a.id = id then { a with node := some n } else a }
    return n

def aliasNode (name : String) : Parse Node := do
  match (← get).anchors.find? (·.name = name) with
  | some { node := some n, .. } => return .mention name n
  | _ => fail

/-- What stands before a node. -/
structure Properties where
  anchor : Option Nat := none
  /-- The full name of the tag. -/
  tag : Option String := none

def fullTag (handle suffix : String) : Parse String := do
  if handle.isEmpty then return suffix
  match (← get).handles.lookup handle with
  | some expansion => return expansion ++ suffix
  | none => fail

/-- An anchor and a tag, in either order. -/
def properties : Parse Properties := do
  let readAnchor (p : Properties) : Parse Properties := do
    match ← peek with
    | .anchor name => skip; return { p with anchor := some (← anchored name) }
    | _ => return p
  let readTag (p : Properties) : Parse Properties := do
    match ← peek with
    | .tag handle suffix => skip; return { p with tag := some (← fullTag handle suffix) }
    | _ => return p
  match ← peek with
  | .tag .. => readTag {} >>= readAnchor
  | _ => readAnchor {} >>= readTag

/-- The tag of a scalar. A lone exclamation mark counts as no tag. -/
def scalarTag (tag : Option String) (text : String) (plain : Bool) : Tag :=
  match tag with
  | some name => if name = "!" then implied else Tag.ofName name
  | none => implied
where
  implied := if plain then plainTag text else .str

mutual

/-- A node. Block collections are allowed if `block` says so, and a sequence as deep as the mapping
around it if `indentless` does. -/
def node : (fuel : Nat) → (block indentless : Bool) → Parse Node
  | 0, _, _ => fail
  | fuel + 1, block, indentless => do
    match ← peek with
    | .mention name => skip; aliasNode name
    | _ =>
      let p ← properties
      match ← peek with
      | .scalar text plain => skip; complete p.anchor (.scalar (scalarTag p.tag text plain) text)
      | .flowSequence => skip; complete p.anchor (.seq (← flowItems fuel true))
      | .flowMapping => skip; complete p.anchor (.map (← flowEntries fuel true))
      | t =>
        if indentless && t = .blockEntry then
          complete p.anchor (.seq (← indentlessItems fuel))
        else if block && t = .blockSequence then do
          skip; complete p.anchor (.seq (← blockItems fuel))
        else if block && t = .blockMapping then do
          skip; complete p.anchor (.map (← blockEntries fuel))
        else if p.anchor.isSome || p.tag.isSome then
          complete p.anchor (.scalar (scalarTag p.tag "" true) "")
        else fail

/-- A node unless one of the tokens `ends` comes first. -/
def nodeUnless : (fuel : Nat) → (ends : List Token) → (block indentless : Bool) → Parse Node
  | 0, _, _, _ => fail
  | fuel + 1, ends, block, indentless => do
    if ends.contains (← peek) then return .empty else node fuel block indentless

def blockItems : (fuel : Nat) → Parse (List Node)
  | 0 => fail
  | fuel + 1 => do
    match ← peek with
    | .blockEntry =>
      skip
      let item ← nodeUnless fuel [.blockEntry, .blockEnd] true false
      return item :: (← blockItems fuel)
    | .blockEnd => skip; return []
    | _ => fail

def indentlessItems : (fuel : Nat) → Parse (List Node)
  | 0 => fail
  | fuel + 1 => do
    match ← peek with
    | .blockEntry =>
      skip
      let item ← nodeUnless fuel [.blockEntry, .key, .value, .blockEnd] true false
      return item :: (← indentlessItems fuel)
    | _ => return []

def blockEntries : (fuel : Nat) → Parse (List (Node × Node))
  | 0 => fail
  | fuel + 1 => do
    match ← peek with
    | .key =>
      skip
      let k ← nodeUnless fuel [.key, .value, .blockEnd] true true
      let v ← match ← peek with
        | .value => skip; nodeUnless fuel [.key, .value, .blockEnd] true true
        | _ => pure .empty
      return (k, v) :: (← blockEntries fuel)
    | .blockEnd => skip; return []
    | _ => fail

/-- The items of a sequence in brackets; all but the first come after a comma. -/
def flowItems : (fuel : Nat) → (first : Bool) → Parse (List Node)
  | 0, _ => fail
  | fuel + 1, first => do
    if (← peek) = .flowSequenceEnd then skip; return []
    else do
      unless first do
        if (← peek) = .flowEntry then skip else fail
      match ← peek with
      | .flowSequenceEnd => skip; return []
      | .key =>
        skip
        let item ← pairItem fuel
        return item :: (← flowItems fuel false)
      | _ =>
        let item ← node fuel false false
        return item :: (← flowItems fuel false)

/-- A mapping of one entry without braces. -/
def pairItem : (fuel : Nat) → Parse Node
  | 0 => fail
  | fuel + 1 => do
    let k ← do
      if [.value, .flowEntry, .flowSequenceEnd].contains (← peek) then skip; pure .empty
      else node fuel false false
    let v ← match ← peek with
      | .value => skip; nodeUnless fuel [.flowEntry, .flowSequenceEnd] false false
      | _ => pure .empty
    return .map [(k, v)]

/-- The entries of a mapping in braces; all but the first come after a comma. -/
def flowEntries : (fuel : Nat) → (first : Bool) → Parse (List (Node × Node))
  | 0, _ => fail
  | fuel + 1, first => do
    if (← peek) = .flowMappingEnd then skip; return []
    else do
      unless first do
        if (← peek) = .flowEntry then skip else fail
      match ← peek with
      | .flowMappingEnd => skip; return []
      | .key =>
        skip
        let k ← nodeUnless fuel [.value, .flowEntry, .flowMappingEnd] false false
        let v ← match ← peek with
          | .value => skip; nodeUnless fuel [.flowEntry, .flowMappingEnd] false false
          | _ => pure .empty
        return (k, v) :: (← flowEntries fuel false)
      | _ =>
        let k ← node fuel false false
        return (k, .empty) :: (← flowEntries fuel false)

end

/-- Directives before a document: at most one version, which must be 1.1, and tag handles, each of
them once. -/
def directives : (fuel : Nat) → (version : Bool) → (handles : List (String × String)) →
    Parse (List (String × String))
  | 0, _, _ => fail
  | fuel + 1, version, handles => do
    match ← peek with
    | .version major minor =>
      if version || major ≠ 1 || minor ≠ 1 then fail
      else do skip; directives fuel true handles
    | .tagHandle handle expansion =>
      if (handles.lookup handle).isSome then fail
      else do skip; directives fuel version ((handle, expansion) :: handles)
    | _ => return handles

def defaultHandles : List (String × String) := [("!", "!"), ("!!", Tag.standard)]

/-- The first document. A text without one has no tree. -/
def document (fuel : Nat) : Parse (Option Node) := do
  let content ← match ← peek with
    | .streamEnd => return none
    | .version .. | .tagHandle .. | .documentStart =>
      let handles ← directives fuel false []
      modify ({ · with handles := handles ++ defaultHandles })
      if (← peek) ≠ .documentStart then fail
      skip
      match ← peek with
      | .version .. | .tagHandle .. | .documentStart | .documentEnd | .streamEnd => pure .empty
      | _ => node fuel true false
    | _ =>
      modify ({ · with handles := defaultHandles })
      node fuel true false
  let _ ← peek
  return some content

end Parse

/-- Characters that may stand in a text. -/
def isAllowed (c : Char) : Bool :=
  let n := c.toNat
  n = 9 || n = 10 || n = 13 || (32 ≤ n && n ≤ 126) || n = 0x85 || (0xA0 ≤ n && n ≤ 0xD7FF)
    || (0xE000 ≤ n && n ≤ 0xFFFD) || 0x10000 ≤ n

/-- The tree of the first document of a text; `none` is a text that cannot be read, and `some none`
one without a document. -/
def parse? (cs : List Char) : Option (Option Node) :=
  let cs := match cs with
    | c :: rest => if c.toNat = 0xFEFF then rest else c :: rest
    | [] => []
  if cs.all isAllowed then
    let tokens := Tokens.ofText cs
    ((Parse.document (3 * tokens.tokens.size + 10)).run { tokens }).map (·.1)
  else none

end FlowRecovery.Yaml

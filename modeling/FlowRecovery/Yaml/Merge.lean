import FlowRecovery.Yaml.Node

/-! Mappings with a merge key take over the entries of other mappings that they do not have
themselves. No key may be written twice in one mapping. -/
namespace FlowRecovery.Yaml

namespace Node

def isMergeKey : Node → Bool
  | scalar .merge "<<" => true
  | _ => false

/-- Two keys that are written alike. -/
def writtenAlike : Node → Node → Bool
  | scalar _ a, scalar _ b => a = b
  | mention a _, mention b _ => a = b
  | seq _, seq _ => true
  | map _, map _ => true
  | _, _ => false

def hasRepeat : List Node → Bool
  | [] => false
  | k :: rest => rest.any (writtenAlike k) || hasRepeat rest

/-- The text of a scalar, as a name. A null is no name. -/
def name? (n : Node) : Option (Option String) :=
  match n.target with
  | scalar tag text =>
    match tag with
    | .str => some (some text)
    | .binary => (binaryText? text).map some
    | _ =>
      match resolve? tag text with
      | none => none
      | some .null => some none
      | some _ => some (some text)
  | _ => none

/-- Keys are texts, merge keys aside. -/
def isText (n : Node) : Bool :=
  match n.target with
  | scalar .str _ | scalar .merge _ => true
  | _ => false

/-- Two keys that stand for the same. -/
def sameKey (a b : Node) : Bool :=
  match a.target, b.target with
  | scalar t x, scalar u y =>
    match (resolve? t x).bind Value.key?, (resolve? u y).bind Value.key? with
    | some k, some l => k.same l
    | _, _ => false
  | _, _ => false

/-- The entries of a mapping that is merged into another. -/
def mergeSource? (n : Node) : Option (List (Node × Node)) :=
  match n.target with
  | map entries => some entries
  | _ => none

/-- The mappings that a merge key names: one, or a sequence of them. -/
def mergeSources? : Node → Option (List (List (Node × Node)))
  | seq items => items.mapM mergeSource?
  | n => (mergeSource? n).map ([·])

/-- Reads the key as a text; a null has none and drops its entry. -/
def asTextKey (e : Node × Node) : Option (List (Node × Node)) :=
  match e.1.target with
  | scalar .. => (name? e.1).map fun
    | some s => [(scalar .str s, e.2)]
    | none => []
  | _ => some [e]

/-- Adds an entry unless its key is there. -/
def addMissing (own : List (Node × Node)) (e : Node × Node) : List (Node × Node) :=
  if own.any (sameKey ·.1 e.1) then own else own ++ [e]

/-- A mapping whose keys and values are free of merge keys. -/
def merged (entries : List (Node × Node)) : Option (List (Node × Node)) := do
  if hasRepeat (entries.map (·.1)) then none
  let own := entries.filter (!isMergeKey ·.1)
  match entries.find? (isMergeKey ·.1) with
  | none => some own
  | some (_, source) =>
    let texts := own.all (isText ·.1)
    let sources ← mergeSources? source
    let added ← if texts then sources.flatten.mapM asTextKey else some [sources.flatten]
    some (added.flatten.foldl addMissing own)

mutual

/-- The tree without merge keys. -/
def flatten : Node → Option Node
  | scalar tag text => some (scalar tag text)
  | mention name n => (flatten n).map (mention name)
  | seq items => (flattenItems items).map seq
  | map entries => do
    let entries ← flattenEntries entries
    (merged entries).map map

def flattenItems : List Node → Option (List Node)
  | [] => some []
  | n :: rest => do some ((← flatten n) :: (← flattenItems rest))

def flattenEntries : List (Node × Node) → Option (List (Node × Node))
  | [] => some []
  | (k, v) :: rest => do some ((← flatten k, ← flatten v) :: (← flattenEntries rest))

end

/-! ### Trees as operands -/

/-- A later value replaces an earlier one of the same key. -/
def setEntry {α β : Type} (same : α → α → Bool) (entries : List (α × β)) (k : α) (v : β) :
    List (α × β) :=
  if entries.any (fun e => same e.1 k) then
    entries.map fun e => if same e.1 k then (e.1, v) else e
  else entries ++ [(k, v)]

mutual

def value? : Node → Option Value
  | scalar tag text => resolve? tag text
  | mention _ n => value? n
  | seq items => (values? items).map .list
  | map entries => do
    let found ← entryValues? entries
    if entries.all (isText ·.1) then
      let named ← found.mapM fun
        | (.str s, v) => some (s, v)
        | _ => none
      some (.map (named.foldl (fun out e => setEntry (· = ·) out e.1 e.2) []))
    else
      let keyed ← found.mapM fun e => (e.1.key?).map (·, e.2)
      some (.mixed (keyed.foldl (fun out e => setEntry Key.same out e.1 e.2) []))

def values? : List Node → Option (List Value)
  | [] => some []
  | n :: rest => do some ((← value? n) :: (← values? rest))

def entryValues? : List (Node × Node) → Option (List (Value × Value))
  | [] => some []
  | (k, v) :: rest => do some ((← value? k, ← value? v) :: (← entryValues? rest))

end

end Node

end FlowRecovery.Yaml

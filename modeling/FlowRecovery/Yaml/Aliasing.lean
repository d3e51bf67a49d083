import FlowRecovery.Yaml.Merge

/-! A few aliases of aliases can stand for a huge tree. So the nodes are counted as they are taken up, and a
document is refused as soon as too many of them stand below an alias. Documents are records down to their
operands, which are free: a free mapping may have any keys, and a record has no value where it has no name. -/
namespace FlowRecovery.Yaml

/-- How many nodes were taken up, and how many of them below an alias. -/
structure Load where
  nodes : Nat := 0
  aliased : Nat := 0
deriving DecidableEq, Repr

namespace Load

/-- The share of aliased nodes that is borne, in parts of `whole`: ninety-nine in a hundred of a small
document, one in ten of a large one, and evenly less in between. -/
def share (nodes : Nat) : Nat :=
  if nodes ≤ 400000 then 356400000
  else if 4000000 ≤ nodes then 36000000
  else 356400000 - 89 * (nodes - 400000)

def whole : Nat := 360000000

def bearable (l : Load) : Bool :=
  l.aliased ≤ 100 || l.nodes ≤ 1000 || l.aliased * whole ≤ share l.nodes * l.nodes

/-- One more node. -/
def take (l : Load) (below : Bool) : Option Load :=
  let l := { nodes := l.nodes + 1, aliased := if below then l.aliased + 1 else l.aliased : Load }
  if l.bearable then some l else none

end Load

namespace Node

/-- What a key stands for where names are wanted, and where any key will do. -/
def keyOf? (named : Bool) (k : Node) : Option Key :=
  if named then k.name?.join.map .str
  else match k.target with
    | scalar tag text => (resolve? tag text).bind Value.key?
    | _ => none

/-- Operands are free. -/
def freeBelow (free : Bool) (k : Node) : Bool := free || k.name? = some (some "params")

mutual

/-- Takes up a node and all that it holds. -/
def load (free below : Bool) : Node → Load → Option Load
  | scalar _ _, l => l.take below
  | mention _ n, l => do load free true n (← l.take below)
  | seq items, l => do loadItems free below items (← l.take below)
  | map entries, l => do
    let named := !free || entries.all (isText ·.1)
    let l ← loadEntries free named below entries (← l.take below)
    if entries.any (isMergeKey ·.1) then
      let l ← loadKeys free below entries l
      let taken := entries.filterMap (keyOf? false ·.1)
      (loadSources free named below entries (l, taken)).map (·.1)
    else some l

def loadItems (free below : Bool) : List Node → Load → Option Load
  | [], l => some l
  | n :: rest, l => do loadItems free below rest (← load free below n l)

/-- The entries of a mapping but for its merge key. -/
def loadEntries (free named below : Bool) : List (Node × Node) → Load → Option Load
  | [], l => some l
  | (k, v) :: rest, l => do
    if k.isMergeKey then loadEntries free named below rest l
    else
      let l ← load free below k l
      let l ← if named && (keyOf? named k).isNone then some l else load (freeBelow free k) below v l
      loadEntries free named below rest l

/-- The keys of a mapping, once more, before others are merged into it. -/
def loadKeys (free below : Bool) : List (Node × Node) → Load → Option Load
  | [], l => some l
  | (k, _) :: rest, l => do loadKeys free below rest (← load free below k l)

/-- The mappings that the merge key of a mapping names, given the keys that are taken. -/
def loadSources (free named below : Bool) :
    List (Node × Node) → Load × List Key → Option (Load × List Key)
  | [], s => some s
  | (k, seq items) :: rest, s =>
    if k.isMergeKey then loadMergedItems free named below items s
    else loadSources free named below rest s
  | (k, v) :: rest, s =>
    if k.isMergeKey then loadMerged free named below v s else loadSources free named below rest s

def loadMergedItems (free named below : Bool) :
    List Node → Load × List Key → Option (Load × List Key)
  | [], s => some s
  | n :: rest, s => do loadMergedItems free named below rest (← loadMerged free named below n s)

/-- A mapping that is merged into another one. -/
def loadMerged (free named below : Bool) : Node → Load × List Key → Option (Load × List Key)
  | mention _ n, (l, taken) => do loadMerged free named true n (← l.take below, taken)
  | map entries, (l, taken) => do
    let s ← loadFresh free named below entries (← l.take below, taken)
    loadSources free named below entries s
  | _, _ => none

/-- The entries whose keys are not taken yet. -/
def loadFresh (free named below : Bool) :
    List (Node × Node) → Load × List Key → Option (Load × List Key)
  | [], s => some s
  | (k, v) :: rest, (l, taken) => do
    if k.isMergeKey then loadFresh free named below rest (l, taken)
    else
      let l ← load free below k l
      match keyOf? named k with
      | none => loadFresh free named below rest (l, taken)
      | some key =>
        if taken.any key.same then loadFresh free named below rest (l, taken)
        else loadFresh free named below rest (← load (freeBelow free k) below v l, key :: taken)

end

/-- The tree of a document is not mostly made of aliases. The document itself counts as a node. -/
def isBearable (n : Node) : Bool := (n.load false false { nodes := 1 }).isSome

end Node

end FlowRecovery.Yaml

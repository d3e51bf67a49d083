import FlowRecovery.Decimal.Layout
import FlowRecovery.Timestamp
import FlowRecovery.Word

/-! Operands of operations. Control flow never looks into them: they are carried along and shown.
Maps are shown in the order of their keys. -/
namespace FlowRecovery

/-- A key of a map: any operand that is neither a list nor a map. -/
inductive Key where
  | null
  | bool (b : Bool)
  | int (n : Int)
  | float (x : Float)
  | str (s : String)
  | time (t : Timestamp)
deriving Inhabited, Repr

inductive Value where
  | null
  | bool (b : Bool)
  /-- An integer of 64 bits, with or without a sign. -/
  | int (n : Int)
  | float (x : Float)
  | str (s : String)
  | time (t : Timestamp)
  | list (items : List Value)
  /-- A map whose keys are all texts. -/
  | map (entries : List (String × Value))
  /-- A map with other keys among its keys. -/
  | mixed (entries : List (Key × Value))
deriving Inhabited, Repr

/-- Operands show a double with an exponent from a million on and below a ten thousandth. -/
def Value.floatLayout : Decimal.Layout := ⟨6, -4, 2⟩

namespace Key

/-- Keys of one kind stand together, in this order of kinds. -/
def rank : Key → Nat
  | null => 0
  | bool _ => 1
  | int _ => 2
  | float _ => 3
  | str _ => 4
  | time _ => 5

/-- The order in which keys are shown. -/
def le : Key → Key → Bool
  | bool a, bool b => !a || b
  | int a, int b => a ≤ b
  | float a, float b => a.isNaN || a ≤ b
  | str a, str b => a ≤ b
  | time a, time b => a.text ≤ b.text
  | a, b => a.rank ≤ b.rank

def same : Key → Key → Bool
  | null, null => true
  | bool a, bool b => a == b
  | int a, int b => a == b
  | float a, float b => a == b
  | str a, str b => a == b
  | time a, time b => a == b
  | _, _ => false

end Key

namespace Value

/-- The key that the operand can serve as. -/
def key? : Value → Option Key
  | null => some .null
  | bool b => some (.bool b)
  | int n => some (.int n)
  | float x => some (.float x)
  | str s => some (.str s)
  | time t => some (.time t)
  | list _ | map _ | mixed _ => none

/-- Puts an entry in its place among the entries shown, after those with a smaller or equal key. -/
def place {α β : Type} (le : α → α → Bool) (k : α) (v : β) : List (α × β) → List (α × β)
  | [] => [(k, v)]
  | (k', v') :: rest =>
    if le k' k then (k', v') :: place le k v rest else (k, v) :: (k', v') :: rest

/-- The entries in the order of their keys. -/
def sorted {α β : Type} (le : α → α → Bool) (entries : List (α × β)) : List (α × β) :=
  entries.foldl (fun out e => place le e.1 e.2 out) []

def floatText (x : Float) : String := floatLayout.render (.ofFloat x)

def atomText : Key → String
  | .null => "<nil>"
  | .bool b => if b then "true" else "false"
  | .int n => toString n
  | .float x => floatText x
  | .str s => s
  | .time t => t.text

mutual

def text : Value → String
  | null => atomText .null
  | bool b => atomText (.bool b)
  | int n => atomText (.int n)
  | float x => atomText (.float x)
  | str s => atomText (.str s)
  | time t => atomText (.time t)
  | list items => "[" ++ " ".intercalate (textItems items) ++ "]"
  | map entries =>
    let shown := sorted (fun a b => decide (a ≤ b)) (textFields entries)
    "map[" ++ " ".intercalate (shown.map fun e => e.1 ++ ":" ++ e.2) ++ "]"
  | mixed entries =>
    let shown := sorted Key.le (textEntries entries)
    "map[" ++ " ".intercalate (shown.map fun e => atomText e.1 ++ ":" ++ e.2) ++ "]"

def textItems : List Value → List String
  | [] => []
  | v :: rest => v.text :: textItems rest

def textFields : List (String × Value) → List (String × String)
  | [] => []
  | (k, v) :: rest => (k, v.text) :: textFields rest

def textEntries : List (Key × Value) → List (Key × String)
  | [] => []
  | (k, v) :: rest => (k, v.text) :: textEntries rest

end

/-- What kind of operand it is; an integer that needs all 64 bits for its size is of a kind of its
own. -/
def kind : Value → String
  | null => "null"
  | bool _ => "bool"
  | int n => if n < Word.bound then "int" else "uint"
  | float _ => "float"
  | str _ => "string"
  | time _ => "time"
  | list _ => "list"
  | map _ => "map"
  | mixed _ => "anymap"

end Value

end FlowRecovery

/-! JSON documents. Integers are kept as numbers; a number with a fraction or an exponent is kept as
it is spelled. -/
namespace FlowRecovery

inductive Json where
  | null
  | bool (b : Bool)
  | int (n : Int)
  /-- A number that is not spelled as an integer. -/
  | real (literal : String)
  | str (s : String)
  | arr (items : List Json)
  | obj (fields : List (String × Json))
deriving Inhabited, Repr

namespace Json

/-- The last value of a field, `null` counting as a value. -/
def field? : Json → String → Option Json
  | obj fields, name => fields.reverse.lookup name
  | _, _ => none

def items : Json → List Json
  | arr items => items
  | _ => []

end Json

end FlowRecovery

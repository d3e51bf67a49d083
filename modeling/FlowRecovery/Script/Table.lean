import FlowRecovery.Script.Routine

/-! The opcode table says which opcodes end the flow of control, branch two ways or jump, and which
one holds the script. Names are looked up in index sets once the table has been checked, and in the
lists themselves before that. -/
namespace FlowRecovery

/-- What an operation means for the flow of control. -/
inductive Class where
  | plain
  | label
  | branch
  | jump
  | labelJump
deriving DecidableEq, Repr

namespace Class

def name : Class → String
  | plain => "plain"
  | label => "label"
  | branch => "branch"
  | jump => "jump"
  | labelJump => "label-jump"

/-- The classes by number. -/
def all : List Class := [plain, label, branch, jump, labelJump]

/-- The name of a class number: large ones show their number, and negative ones have none. -/
def nameOfNumber? (n : Int) : Option String :=
  if n < 0 then none
  else match all[n.toNat]? with
    | some c => some c.name
    | none => some ("Class(" ++ toString n ++ ")")

end Class

/-- Names without repetition. -/
structure NameSet where
  names : List String
deriving DecidableEq, Repr, Inhabited

def NameSet.ofList (names : List String) : NameSet := ⟨names.eraseDups⟩

def NameSet.contains (s : NameSet) (name : String) : Bool := s.names.contains name

structure TableIndex where
  terminal : NameSet
  branch : NameSet
  jump : NameSet
deriving DecidableEq, Repr, Inhabited

/-- A list that is missing differs from an empty one only when the table is written out. -/
structure Table where
  hold : String
  terminal : Option (List String) := none
  branch : Option (List String) := none
  jump : Option (List String) := none
  index : Option TableIndex := none
deriving DecidableEq, Repr, Inhabited

namespace Table

def terminals (t : Table) : List String := t.terminal.getD []

def branches (t : Table) : List String := t.branch.getD []

def jumps (t : Table) : List String := t.jump.getD []

def withIndex (t : Table) : Table :=
  { t with index := some ⟨.ofList t.terminals, .ofList t.branches, .ofList t.jumps⟩ }

/-- The built-in table. -/
def default : Table :=
  withIndex
    { hold := "Hold"
      terminal := some ["End", "Return", "Jump", "JumpCommon", "Hold"]
      branch := some
        ["Branch", "BranchBit", "BranchDebug", "BranchEdit", "BranchExecuteSub",
          "BranchPerformance", "BranchScenarioNow", "BranchScenarioNowAfter",
          "BranchScenarioNowBefore", "BranchScenarioAfter", "BranchScenarioBefore", "BranchSum",
          "BranchValue", "BranchVariable", "BranchVariation"]
      jump := some ["Jump"] }

def isTerminal (t : Table) (name : String) : Bool :=
  match t.index with
  | some i => i.terminal.contains name
  | none => t.terminals.contains name

def isBranch (t : Table) (name : String) : Bool :=
  match t.index with
  | some i => i.branch.contains name
  | none => t.branches.contains name

def isJump (t : Table) (name : String) : Bool :=
  match t.index with
  | some i => i.jump.contains name
  | none => t.jumps.contains name

def isHold (t : Table) (name : String) : Bool := name == t.hold

def classify (t : Table) (op : Operation) : Class :=
  match op.action with
  | .plain _ => .plain
  | .label _ => .label
  | .labelJump root _ =>
    if t.isBranch root.code.name then .branch
    else if t.isJump root.code.name then .jump
    else .labelJump

/-- Whether control never falls through to the next operation. -/
def endsFlow (t : Table) (op : Operation) : Bool :=
  match op.root? with
  | some root => t.isTerminal root.code.name
  | none => false

/-- A table holds a script by some opcode, jumps by some opcode, and no opcode both branches and
jumps. -/
def validate (t : Table) : Except Fault Unit :=
  let refuse message := .error (.coded .invalidOpcodeTable message)
  if t.hold = "" then refuse "hold opcode must be set"
  else if t.jumps = [] then refuse "at least one jump opcode is required"
  else match t.jumps.find? (t.branches.contains ·) with
    | some name => refuse ("opcode " ++ Text.quote name ++ " tagged both branch and jump")
    | none => .ok ()

end Table

end FlowRecovery

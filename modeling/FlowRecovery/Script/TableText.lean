import FlowRecovery.Script.Table
import FlowRecovery.Toml.Document

/-! Opcode tables as TOML text. Four keys say it all; others are ignored, and capitals in the keys do
not matter. A list that is missing is left out when the table is written. -/
namespace FlowRecovery.Table

/-! ### Writing -/

def tomlLine (key : String) (value : List Char) : List Char :=
  key.toList ++ " = ".toList ++ value ++ ['\n']

def tomlNames (names : List String) : List Char :=
  ['['] ++ [',', ' '].intercalate (names.map Toml.quoted) ++ [']']

def tomlList (key : String) : Option (List String) → List Char
  | none => []
  | some names => tomlLine key (tomlNames names)

def toml (t : Table) : String :=
  String.ofList <|
    tomlLine "hold" (Toml.quoted t.hold) ++ tomlList "terminal" t.terminal
      ++ tomlList "branch" t.branch ++ tomlList "jump" t.jump

/-! ### Reading -/

def tomlString? : Toml.Value → Option String
  | .str s => some s
  | _ => none

def tomlStrings? : Toml.Value → Option (List String)
  | .arr items => items.mapM tomlString?
  | _ => none

/-- Takes over one entry of a document. -/
def takeEntry (t : Table) (entry : String × Toml.Value) : Option Table :=
  match entry.1.map Char.toLower with
  | "hold" => (tomlString? entry.2).map fun hold => { t with hold }
  | "terminal" => (tomlStrings? entry.2).map fun names => { t with terminal := some names }
  | "branch" => (tomlStrings? entry.2).map fun names => { t with branch := some names }
  | "jump" => (tomlStrings? entry.2).map fun names => { t with jump := some names }
  | _ => some t

def ofToml? (text : String) : Option Table := do
  (← Toml.parse? text).foldlM takeEntry { hold := "" }

/-- The table that a file holds. -/
def ofBytes? (bytes : ByteArray) : Option Table := (Toml.text? bytes).bind ofToml?

/-- Checks what was decoded, if anything was. -/
def checked : Option Table → Except Fault Table
  | none => .error (.coded .invalidOpcodeTable "decode opcode table")
  | some t => t.validate.map fun _ => t.withIndex

def parse (text : String) : Except Fault Table := checked (ofToml? text)

end FlowRecovery.Table

import FlowRecovery.Command.Flag
import FlowRecovery.Text.Distance
import FlowRecovery.Text.Lowercase

/-! What a command line asks for. The first word that is neither a flag nor the value of one names
the command; every other argument goes to that command. -/
namespace FlowRecovery

/-- How to run the pipeline. -/
structure RunFlags where
  /-- The path of an opcode table; empty for the one in effect. -/
  opcodes : String := ""
  workers : Int := 0
  keepGoing : Bool := false
  skipCollapse : Bool := false
  skipBranches : Bool := false
deriving DecidableEq, Repr

inductive Invocation where
  | version
  | usage
  /-- Structures a listing; the result goes to `output`, or is printed if that is empty. -/
  | recover (path : String) (flags : RunFlags) (output : String)
  /-- Shows one routine, or an overview if `routine` is negative. -/
  | inspect (path : String) (flags : RunFlags) (routine : Int)
  | opcodes (path : String) (asToml : Bool)
deriving DecidableEq, Repr

namespace Command

def program : String := "scriptflow"

inductive Name where
  | recover
  | inspect
  | opcodes
  | completion
  | help
deriving DecidableEq, Repr

namespace Name

def text : Name → String
  | recover => "structure"
  | inspect => "inspect"
  | opcodes => "opcodes"
  | completion => "completion"
  | help => "help"

def all : List Name := [recover, inspect, opcodes, completion, help]

def ofText? (s : String) : Option Name := all.find? (·.text = s)

/-- The names that a message may suggest. -/
def suggestible : List Name := [recover, inspect, opcodes, completion]

end Name

/-! ### Flags -/

def verboseFlag : Flag := { name := "verbose", letter := some 'v', kind := .switch }

def helpFlag : Flag := { name := "help", letter := some 'h', kind := .switch }

def versionFlag : Flag := { name := "version", kind := .switch }

def tableFlag : Flag := { name := "opcodes", kind := .text }

def runFlags : List Flag :=
  [tableFlag, { name := "workers", kind := .whole }, { name := "keep-going", kind := .switch },
    { name := "skip-collapse", kind := .switch }, { name := "skip-branches", kind := .switch }]

/-- The flags of a command; without a command, those of the program. -/
def flagsOf : Option Name → List Flag
  | none => [versionFlag, verboseFlag, helpFlag]
  | some name =>
    [verboseFlag, helpFlag] ++
      match name with
      | .recover => runFlags ++ [{ name := "output", letter := some 'o', kind := .text }]
      | .inspect => runFlags ++ [{ name := "routine", letter := some 'r', kind := .whole }]
      | .opcodes => [tableFlag, { name := "toml", kind := .switch }]
      | .completion | .help => []

/-! ### The command's name -/

/-- Whether an argument in front of the command looks like a flag whose value is the next one. The
commands' own flags are not known there, so all but one count as such. -/
def takesNext (arg : String) : Bool :=
  match arg.toList with
  | '-' :: '-' :: cs => !cs.contains '=' && arg ≠ "--verbose"
  | ['-', c] => c.toNat < 128 && c ≠ '=' && c ≠ 'v'
  | _ => false

/-- The words among arguments. A flag in front of the last argument hides it. -/
def words : List String → List String
  | [] => []
  | arg :: rest =>
    if arg = "--" then []
    else if takesNext arg then
      match rest with
      | _ :: more => if more.isEmpty then [] else words more
      | [] => []
    else if arg = "" ∨ arg.toList.head? = some '-' then words rest
    else arg :: words rest

/-- Removes the first word that is `x`. -/
def withoutWord (x : String) : List String → List String
  | [] => []
  | arg :: rest =>
    if arg = "--" then arg :: rest
    else if takesNext arg then
      match rest with
      | value :: more => arg :: value :: withoutWord x more
      | [] => [arg]
    else if arg = x then rest
    else arg :: withoutWord x rest

/-- A name is suggested if it is at most two edits away, or starts with what was typed. -/
def suggests (typed : String) (name : Name) : Bool :=
  let typed := (Text.lower typed).toUTF8.toList
  let known := name.text.toUTF8.toList
  Text.distance typed known ≤ 2 || typed.isPrefixOf known

def suggestionText (typed : String) : String :=
  match Name.suggestible.filter (suggests typed) with
  | [] => ""
  | found => "\n\nDid you mean this?\n" ++ String.join (found.map fun n => "\t" ++ n.text ++ "\n")

def unknownCommand (word path : String) (suggestion : String) : Fault :=
  .plain ("unknown command " ++ Text.quote word ++ " for " ++ Text.quote path ++ suggestion)

/-- The command and its arguments. -/
def split (args : List String) : Except Fault (Option Name × List String) :=
  match words args with
  | [] => .ok (none, args)
  | word :: _ =>
    match Name.ofText? word with
    | some name => .ok (some name, withoutWord word args)
    | none => .error (unknownCommand word program (suggestionText word))

/-! ### The invocation -/

def runFlagsOf (a : Arguments) : RunFlags :=
  { opcodes := a.text "opcodes"
    workers := a.whole "workers" 0
    keepGoing := a.switch "keep-going"
    skipCollapse := a.switch "skip-collapse"
    skipBranches := a.switch "skip-branches" }

/-- The one argument that a command takes. -/
def single (a : Arguments) : Except Fault String :=
  match a.rest with
  | [s] => .ok s
  | rest => .error (.plain ("accepts 1 arg(s), received " ++ toString rest.length))

def invocation (name : Option Name) (a : Arguments) : Except Fault Invocation :=
  if a.switch "help" then .ok .usage
  else match name with
    | none => .ok (if a.switch "version" then .version else .usage)
    | some .completion | some .help => .ok .usage
    | some .recover => (single a).map (.recover · (runFlagsOf a) (a.text "output"))
    | some .inspect => (single a).map (.inspect · (runFlagsOf a) (a.whole "routine" (-1)))
    | some .opcodes =>
      match a.rest with
      | [] => .ok (.opcodes (a.text "opcodes") (a.switch "toml"))
      | word :: _ => .error (unknownCommand word (program ++ " " ++ Name.opcodes.text) "")

/-- Reads a command line. -/
def parse (args : List String) : Except Fault Invocation := do
  let (name, args) ← split args
  invocation name (← Arguments.parse (flagsOf name) args)

end Command

end FlowRecovery

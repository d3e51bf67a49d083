import FlowRecovery.Command.Literal
import FlowRecovery.Fault

/-! Flags of a command. A flag has a long name and maybe a letter; letters may be grouped. A switch
needs no value, every other flag takes the rest of its argument or the next one. Flags and other
arguments may be mixed, and two dashes end the flags. -/
namespace FlowRecovery.Command

inductive FlagKind where
  | text
  | whole
  | switch
deriving DecidableEq, Repr

structure Flag where
  name : String
  letter : Option Char := none
  kind : FlagKind
deriving DecidableEq, Repr

inductive FlagValue where
  | text (s : String)
  | whole (n : Int)
  | switch (on : Bool)
deriving DecidableEq, Repr

/-- What a command line says: the flags in their order, and the other arguments. -/
structure Arguments where
  flags : List (String × FlagValue) := []
  rest : List String := []
deriving DecidableEq, Repr

namespace Arguments

/-- The last value of a flag counts. -/
def value? (a : Arguments) (name : String) : Option FlagValue := a.flags.reverse.lookup name

def text (a : Arguments) (name : String) : String :=
  match a.value? name with
  | some (.text s) => s
  | _ => ""

def whole (a : Arguments) (name : String) (missing : Int) : Int :=
  match a.value? name with
  | some (.whole n) => n
  | _ => missing

def switch (a : Arguments) (name : String) : Bool :=
  match a.value? name with
  | some (.switch on) => on
  | _ => false

end Arguments

namespace Flag

/-- How messages call a flag. -/
def title (f : Flag) : String :=
  match f.letter with
  | some c => "-" ++ String.singleton c ++ ", --" ++ f.name
  | none => "--" ++ f.name

def refuse (f : Flag) (s : String) (reader : String) (cause : LiteralFault) : Fault :=
  .plain ("invalid argument " ++ Text.quote s ++ " for " ++ Text.quote f.title ++ " flag: strconv."
    ++ reader ++ ": parsing " ++ Text.quote s ++ ": " ++ cause.text)

def read (f : Flag) (s : String) : Except Fault (String × FlagValue) :=
  match f.kind with
  | .text => .ok (f.name, .text s)
  | .whole =>
    match Command.whole s with
    | .ok n => .ok (f.name, .whole n)
    | .error cause => .error (f.refuse s "ParseInt" cause)
  | .switch =>
    match truth? s with
    | some on => .ok (f.name, .switch on)
    | none => .error (f.refuse s "ParseBool" .malformed)

end Flag

/-- The flags of one argument, and whether the last of them took the next argument. -/
abbrev FlagsRead := List (String × FlagValue) × Bool

/-- A flag with the next argument as its value. -/
def readNext (f : Flag) (next : Option String) (missing : Fault) : Except Fault FlagsRead :=
  match next with
  | none => .error missing
  | some s => (f.read s).map fun v => ([v], true)

/-- A flag by its long name, after two dashes. -/
def readLong (flags : List Flag) (cs : List Char) (next : Option String) : Except Fault FlagsRead :=
  let name := String.ofList (cs.takeWhile (· ≠ '='))
  if name.isEmpty ∨ cs.head? = some '-' then
    .error (.plain ("bad flag syntax: --" ++ String.ofList cs))
  else match flags.find? (·.name = name) with
    | none => .error (.plain ("unknown flag: --" ++ name))
    | some f =>
      match cs.dropWhile (· ≠ '=') with
      | _ :: value => (f.read (String.ofList value)).map fun v => ([v], false)
      | [] =>
        if f.kind = .switch then .ok ([(f.name, .switch true)], false)
        else readNext f next (.plain ("flag needs an argument: --" ++ name))

/-- Letters are single bytes, so beyond ASCII a message has only the first byte of a letter. -/
def letterShown (c : Char) : Char := if c.toNat < 128 then c else Char.ofNat 0xC3

/-- Flags by their letters, after one dash. -/
def readLetters (flags : List Flag) (next : Option String) : List Char → Except Fault FlagsRead
  | [] => .ok ([], false)
  | c :: rest =>
    let shown := Text.quoteOne (letterShown c) ++ " in -" ++ String.ofList (c :: rest)
    match flags.find? (·.letter = some c) with
    | none => .error (.plain ("unknown shorthand flag: " ++ shown))
    | some f =>
      match rest with
      | '=' :: d :: value => (f.read (String.ofList (d :: value))).map fun v => ([v], false)
      | _ =>
        if f.kind = .switch then
          (readLetters flags next rest).map fun (more, took) =>
            ((f.name, .switch true) :: more, took)
        else if rest.isEmpty then
          readNext f next (.plain ("flag needs an argument: " ++ shown))
        else (f.read (String.ofList rest)).map fun v => ([v], false)

/-- The flags that an argument spells, if it spells any. -/
def readFlags? (flags : List Flag) (arg : String) (next : Option String) :
    Option (Except Fault FlagsRead) :=
  match arg.toList with
  | '-' :: '-' :: cs => some (readLong flags cs next)
  | '-' :: c :: cs => some (readLetters flags next (c :: cs))
  | _ => none

def Arguments.parse (flags : List Flag) : List String → Except Fault Arguments
  | [] => .ok {}
  | arg :: rest =>
    if arg = "--" then .ok { rest }
    else match readFlags? flags arg rest.head? with
      | none => (parse flags rest).map fun a => { a with rest := arg :: a.rest }
      | some (.error f) => .error f
      | some (.ok (found, took)) =>
        (parse flags (if took then rest.tail else rest)).map fun a =>
          { a with flags := found ++ a.flags }
termination_by args => args.length
decreasing_by
  all_goals simp only [List.length_cons]
  · omega
  · split
    · have := List.length_tail (l := rest); omega
    · omega

end FlowRecovery.Command

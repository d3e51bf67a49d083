import FlowRecovery.Command.Job
import FlowRecovery.Command.Invocation
import FlowRecovery.Display.Report
import FlowRecovery.Listing.Export
import FlowRecovery.Pipeline.Pool
import FlowRecovery.Script.TableText

/-! The commands. The listing is read first, then the opcode table, then all routines are recovered;
only then anything is written or shown. -/
namespace FlowRecovery

/-- What a command finds around it, apart from files. -/
structure Surroundings where
  processors : Nat := 1
  /-- The user's folder; empty if there is none. -/
  home : String := ""
  /-- The folder for settings; empty if it is the usual one below the user's folder. -/
  configHome : String := ""
  /-- The run was interrupted before it started. -/
  canceled : Bool := false
  /-- What is printed goes to a screen. -/
  terminal : Bool := false
deriving DecidableEq, Repr, Inhabited

namespace Surroundings

/-- Where tables of one's own are kept. -/
def configFolder? (s : Surroundings) : Option String :=
  if s.configHome ≠ "" then some (Disk.join s.configHome [Command.program])
  else if s.home ≠ "" then some (Disk.join s.home [".config", Command.program])
  else none

def tablePath? (s : Surroundings) : Option String :=
  s.configFolder?.map (Disk.join · ["opcodes.toml"])

end Surroundings

/-- What a command is put together from: how listings and tables are decoded, how routines are run, and
how results are encoded. -/
structure Tools where
  listing : ByteArray → Option Document
  table : ByteArray → Option Table
  run : Options → List Routine → RunReport
  encode : Result → Except String String

/-- The tools of the program. -/
def Tools.usual (s : Surroundings) : Tools where
  listing bytes := Document.ofPieces? (Text.Piece.ofBytes bytes)
  table := Table.ofBytes?
  run o routines := o.run s.processors routines s.canceled
  encode := Result.encode

namespace Table

/-- A table from what was found at its path, and how that is decoded. -/
def ofFile (decode : ByteArray → Option Table) (path : String) :
    Except DiskFault ByteArray → Except Fault Table
  | .ok bytes => checked (decode bytes)
  | .error .notFound =>
    .error (.codedOver .fileNotFound ("opcode table " ++ path)
      (.plain (DiskFault.notFound.onRead path)))
  | .error f => .error (.within "read opcode table" (.plain (f.onRead path)))

/-- A table that need not be there; the built-in one stands in for it. -/
def ofFileOrDefault (decode : ByteArray → Option Table) (path : String)
    (found : Except DiskFault ByteArray) : Except Fault Table :=
  match ofFile decode path found with
  | .error f => if f.hasCode .fileNotFound then .ok default else .error f
  | ok => ok

end Table

namespace Job

variable (tools : Tools) (s : Surroundings)

/-- Goes on with the table at a path, or with the one in effect if there is no path. -/
def withTable (path : String) (next : Table → Job) : Job :=
  if path ≠ "" then
    check (Input.checkPath (Text.Piece.ofString path)) fun _ =>
      .read path fun found => check (Table.ofFile tools.table path found) next
  else match s.tablePath? with
    | none => next .default
    | some path => .read path fun found => check (Table.ofFileOrDefault tools.table path found) next

/-- Goes on with the routines of a listing. -/
def withListing (path : String) (next : List Routine → Job) : Job :=
  let found (routines : Except Fault (List Routine)) : Job :=
    .tell (Listing.readEvent path routines) (check routines next)
  match Input.checkListingPath (Text.Piece.ofString path) with
  | .error f => found (.error f)
  | .ok _ => .read path fun answer => found (Listing.ofFile tools.listing path answer)

def optionsOf (flags : RunFlags) (table : Table) : Options :=
  { workers := flags.workers
    keepGoing := flags.keepGoing
    passes := { skipCollapse := flags.skipCollapse, skipBranches := flags.skipBranches }
    table := some table }

/-- Goes on with the result for all routines of a listing. -/
def withResult (path : String) (flags : RunFlags) (next : Result → Job) : Job :=
  withListing tools path fun routines =>
    withTable tools s flags.opcodes fun table =>
      check (tools.run (optionsOf flags table) routines).outcome next

/-- What is said of a result that went to a file. -/
def writtenLines (path output : String) (r : Result) : List String :=
  Display.summaryLines r
    ++ [Display.success ("Recovered control flow for " ++ toString r.stats.routines ++ " routines"),
      Display.statsLine r.stats, "  → " ++ Display.block 0 output]
    ++ (if r.stats.failed = 0 then []
      else ["Inspect a failing routine: "
        ++ Display.block 0 (Command.program ++ " inspect " ++ path ++ " --routine <id>")])

/-- What is left to say when the output does not take a result. -/
def unprinted (f : DiskFault) : Fault := .within "encode" (.plain f.onPrint)

/-- What is left to say when a result cannot be written to its file. -/
def unwritten (output : String) (f : DiskFault) : Fault :=
  .within ("write " ++ output) (.plain (f.onWrite output))

def printResult (r : Result) : Job :=
  check (r.textBy tools.encode) fun text =>
    .print text fun
      | none => finish
      | some f => .fail (unprinted f)

/-- Writes a result to a file. -/
def writeResult (path output : String) (r : Result) : Job :=
  match r.textBy tools.encode with
  | .error f => .tell (.written output 0 (some f)) (.fail f)
  | .ok text =>
    .write output text fun
      | none =>
        .tell (.written output text.utf8ByteSize none)
          (printLines (writtenLines path output r) finish)
      | some f =>
        .tell (.written output text.utf8ByteSize (some (unwritten output f)))
          (.fail (unwritten output f))

/-- Puts a result where it is to go. -/
def deliver (path output : String) (r : Result) : Job :=
  if output = "" then printResult tools r
  else check (Input.checkPath (Text.Piece.ofString output)) fun _ => writeResult tools path output r

def recover (path : String) (flags : RunFlags) (output : String) : Job :=
  withResult tools s path flags (deliver tools path output)

def showRoutine (r : Result) (id : Int) : Job :=
  check (r.find id) fun rr => printLines (Display.routineLines rr) finish

/-- Shows the routine that is asked for. If none is, the user picks one on a screen, and all are listed
elsewhere. -/
def present (path : String) (routine : Int) (r : Result) : Job :=
  if r.routines.isEmpty then printLines [Display.warning ("No routines in " ++ path)] finish
  else if 0 ≤ routine then showRoutine r routine
  else if s.terminal then
    .pick r.routines fun
      | .routine id => showRoutine r id
      | .nothing => printLines [Display.info "No selection made"] finish
      | .failed message => .fail (.plain message)
  else printLines (Display.resultGrid r).lines finish

/-- Routines that fail do not keep the others from being shown. -/
def inspect (path : String) (flags : RunFlags) (routine : Int) : Job :=
  withResult tools s path { flags with keepGoing := true } (present s path routine)

def opcodes (path : String) (asToml : Bool) : Job :=
  withTable tools s path fun table =>
    if asToml then
      .print table.toml fun
        | none => finish
        | some f => .fail (.plain f.onPrint)
    else
      let hint := match s.configFolder? with
        | some folder =>
          if path = "" then [Display.info ("Custom tables are read from " ++ folder)] else []
        | none => []
      printLines (hint ++ Display.tableLines table) finish

def versionLines : List String :=
  [Command.program ++ " version dev", "commit: none", "built: unknown"]

def usageLines : List String :=
  ["Recovers structured control flow from script bytecode.", "",
    "  " ++ Command.program ++ " structure <listing> [-o <file>]",
    "  " ++ Command.program ++ " inspect <listing> [-r <id>]",
    "  " ++ Command.program ++ " opcodes [--toml]"]

end Job

namespace Invocation

def job (s : Surroundings) : Invocation → Job
  | version => .printLines Job.versionLines .finish
  | usage => .printLines Job.usageLines .finish
  | recover path flags output => .recover (.usual s) s path flags output
  | inspect path flags routine => .inspect (.usual s) s path flags routine
  | opcodes path asToml => .opcodes (.usual s) s path asToml

end Invocation

/-- What the program does for a command line. -/
def Command.job (s : Surroundings) (args : List String) : Job :=
  .check (Command.parse args) (·.job s)

end FlowRecovery

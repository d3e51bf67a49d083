import FlowRecovery.Listing.File
import FlowRecovery.Picker

/-! What a command does, step by step, as data. A job either ends or does one thing and goes on
with what came of it. Whatever answers its steps is a world: a disk in memory is one, and the real
one goes through the same jobs. -/
namespace FlowRecovery

inductive Job where
  | done (fault : Option Fault)
  | print (text : String) (next : Option DiskFault → Job)
  | tell (event : ListingEvent) (next : Job)
  | read (path : String) (next : Except DiskFault ByteArray → Job)
  | write (path text : String) (next : Option DiskFault → Job)
  | pick (routines : List RoutineResult) (next : Pick → Job)

/-- What the steps of a job are answered, in any state that only writing changes. A write that fails may
change it too. -/
structure World (σ : Type) where
  print : σ → String → Option DiskFault
  read : σ → String → Except DiskFault ByteArray
  write : σ → (path text : String) → Option DiskFault × σ
  pick : σ → List RoutineResult → Pick

/-- A disk in memory, without a user and with an output that takes everything. -/
def Disk.world : World Disk where
  print _ _ := none
  read := Disk.read
  write disk path text :=
    match disk.write path text with
    | .ok disk => (none, disk)
    | .error f => (some f, disk)
  pick _ _ := .nothing

/-- What a command left behind. -/
structure Outcome (σ : Type) where
  state : σ
  /-- All that was to be printed. -/
  output : String := ""
  events : List ListingEvent := []
  fault : Option Fault := none

namespace Outcome

variable {σ : Type}

def printing (o : Outcome σ) (text : String) : Outcome σ := { o with output := text ++ o.output }

def telling (o : Outcome σ) (e : ListingEvent) : Outcome σ := { o with events := e :: o.events }

/-- The exit status of the program. -/
def status (o : Outcome σ) : Nat := (o.fault.map (·.exitStatus)).getD 0

def disk (o : Outcome Disk) : Disk := o.state

end Outcome

namespace Job

def finish : Job := .done none

def fail (f : Fault) : Job := .done (some f)

/-- Prints lines, each with a line break, whether they are taken or not. -/
def printLines (lines : List String) (next : Job) : Job :=
  .print (String.join (lines.map (· ++ "\n"))) fun _ => next

/-- Goes on with a value, or ends with the fault that stands for it. -/
def check {α : Type} (x : Except Fault α) (next : α → Job) : Job :=
  match x with
  | .ok a => next a
  | .error f => .fail f

/-- Runs a job in a world. -/
def runIn {σ : Type} (w : World σ) (state : σ) : Job → Outcome σ
  | done fault => { state, fault }
  | print text next => ((next (w.print state text)).runIn w state).printing text
  | tell e next => (next.runIn w state).telling e
  | read path next => (next (w.read state path)).runIn w state
  | write path text next => (next (w.write state path text).1).runIn w (w.write state path text).2
  | pick routines next => (next (w.pick state routines)).runIn w state

/-- Runs a job on a disk in memory. -/
def runOn (disk : Disk) (job : Job) : Outcome Disk := job.runIn Disk.world disk

end Job

end FlowRecovery

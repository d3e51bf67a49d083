import FlowRecovery.Pipeline.Event
import FlowRecovery.Pipeline.Options

/-! A pool of workers as a machine of small moves. Routines are launched in their order while fewer
than the allowed number are on the way. A routine that has been launched first looks whether the
run was cancelled; if not, it starts, reports what happens to it event by event, and finishes. The
first fault of a run that does not keep going is recorded and cancels the run. Any choice among
the moves that are possible is a schedule. -/
namespace FlowRecovery

inductive Phase where
  | queued
  | launched
  /-- The result is known and the events have still to be reported. -/
  | running (result : RoutineResult) (pending : List Event)
  | finished (result : RoutineResult)
  /-- Saw the run cancelled and did nothing. -/
  | abandoned
deriving Inhabited

structure Task where
  routine : Routine
  phase : Phase := .queued
deriving Inhabited

namespace Phase

def isQueued : Phase → Bool
  | queued => true
  | _ => false

/-- On the way: launched and neither finished nor abandoned. -/
def isActive : Phase → Bool
  | launched | running .. => true
  | _ => false

def result? : Phase → Option RoutineResult
  | running r _ | finished r => some r
  | _ => none

end Phase

structure Pool where
  settings : Settings
  tasks : List Task
  events : List Event := []
  canceled : Bool := false
  fault : Option Fault := none
deriving Inhabited

inductive Move where
  /-- Launches the next routine. -/
  | launch
  /-- Lets one routine on the way do its next step. -/
  | advance (task : Nat)
deriving DecidableEq, Repr

namespace Pool

def start (s : Settings) (routines : List Routine) (canceled : Bool) : Pool :=
  { settings := s
    tasks := routines.map ({ routine := · })
    events := [.runStart routines.length s.workers]
    canceled }

def active (p : Pool) : Nat := p.tasks.countP (·.phase.isActive)

def setPhase (p : Pool) (i : Nat) (phase : Phase) : Pool :=
  { p with tasks := p.tasks.modify i ({ · with phase }) }

/-- The first fault stays, and cancels the run. -/
def fail (p : Pool) (f : Fault) : Pool :=
  { p with fault := p.fault.or (some f), canceled := true }

def advance (p : Pool) (i : Nat) : Option Pool :=
  match p.tasks[i]? with
  | none => none
  | some task =>
    match task.phase with
    | .launched =>
      if p.canceled then some ((p.setPhase i .abandoned).fail .canceled)
      else
        let rr := p.settings.recover task.routine
        let p := p.setPhase i (.running rr (Event.rest task.routine rr))
        some { p with events := p.events ++ [Event.start task.routine] }
    | .running rr (e :: pending) =>
      let p := p.setPhase i (.running rr pending)
      some { p with events := p.events ++ [e] }
    | .running rr [] =>
      let p := p.setPhase i (.finished rr)
      match rr.fault with
      | some f => some (if p.settings.keepGoing then p else p.fail f)
      | none => some p
    | _ => none

/-- The pool after a move; a move that is not possible has no outcome. -/
def step (p : Pool) : Move → Option Pool
  | .launch =>
    if p.active < p.settings.workers then
      (p.tasks.findIdx? (·.phase.isQueued)).map (p.setPhase · .launched)
    else none
  | .advance i => p.advance i

/-- The pool after a schedule, if each of its moves is possible when its turn comes. -/
def follow (p : Pool) : List Move → Option Pool
  | [] => some p
  | m :: ms => (p.step m).bind (·.follow ms)

def isDone (p : Pool) : Bool := p.tasks.all fun t => !t.phase.isQueued && !t.phase.isActive

/-- What the run returns once nothing is left to do. -/
def outcome (p : Pool) : Except Fault Result :=
  match p.fault with
  | some f => .error f
  | none => .ok { routines := p.tasks.filterMap (·.phase.result?) }

/-- All events of the run. Only a run that returns a result reports its completion. -/
def allEvents (p : Pool) : List Event :=
  match p.outcome with
  | .error _ => p.events
  | .ok r => p.events ++ [.runComplete r.stats.routines r.stats.failed]

/-- The routines with the markers that the run left on them. -/
def routinesAfter (p : Pool) : List Routine :=
  p.tasks.map fun t => (t.phase.result?.bind (·.routine)).getD t.routine

/-- One routine after the other: the first one on the way goes on, else the next is launched. -/
def inOrder (p : Pool) : Move :=
  match p.tasks.findIdx? (·.phase.isActive) with
  | some i => .advance i
  | none => .launch

/-- Follows the schedule of `inOrder` while it can. -/
def runInOrder : (fuel : Nat) → Pool → Pool
  | 0, p => p
  | fuel + 1, p =>
    match p.step p.inOrder with
    | some p => runInOrder fuel p
    | none => p

/-- A routine takes a move to launch, one to start, one to finish, and one for its completion and
for each of its branches. -/
def fuel (p : Pool) : Nat := p.tasks.foldl (fun n t => n + (t.routine.ops.length + 4)) 0

def run (s : Settings) (routines : List Routine) (canceled : Bool) : Pool :=
  let p := start s routines canceled
  runInOrder p.fuel p

end Pool

/-- What a run leaves behind. -/
structure RunReport where
  outcome : Except Fault Result
  events : List Event
  /-- The routines, with the markers that the run left on them. -/
  routines : List Routine
deriving Inhabited

namespace Options

/-- Recovers the control flow of all routines. Options that are not valid end the run before it
starts. -/
def run (o : Options) (processors : Nat) (routines : List Routine) (canceled : Bool) :
    RunReport :=
  match o.settings processors with
  | .error f => { outcome := .error (invalid f), events := [], routines }
  | .ok s =>
    let p := Pool.run s routines canceled
    { outcome := p.outcome, events := p.allEvents, routines := p.routinesAfter }

/-- Recovers the control flow of one routine, with the events of it. -/
def recover (o : Options) (processors : Nat) (r : Routine) : RoutineResult × List Event :=
  match o.settings processors with
  | .error f => ({ id := r.id, routine := some r, fault := some (invalid f) }, [])
  | .ok s =>
    let rr := s.recover r
    (rr, Event.trace r rr)

end Options

end FlowRecovery

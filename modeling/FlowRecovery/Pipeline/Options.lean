import FlowRecovery.Input
import FlowRecovery.Pipeline.Result
import FlowRecovery.Script.Table

/-! Options of a run and what they amount to. Options are checked once; settings are what a run
works with. -/
namespace FlowRecovery

structure Options where
  /-- Routines processed at a time; none stands for one for each processor. -/
  workers : Int := 0
  passes : Passes := {}
  keepGoing : Bool := false
  /-- The built-in table if missing. -/
  table : Option Table := none
deriving DecidableEq, Repr, Inhabited

structure Settings where
  workers : Nat
  passes : Passes := {}
  keepGoing : Bool := false
  table : Table := .default
deriving DecidableEq, Repr, Inhabited

namespace Options

/-- The settings on a machine with `processors` processors. -/
def settings (o : Options) (processors : Nat) : Except Fault Settings := do
  Input.checkWorkers o.workers
  let workers := if o.workers = 0 then processors else o.workers.toNat
  let table ← match o.table with
    | none => .ok Table.default
    | some t => do
      t.validate
      .ok t
  .ok { workers, passes := o.passes, keepGoing := o.keepGoing, table }

def invalid (cause : Fault) : Fault := .within "invalid options" cause

end Options

namespace Settings

/-- Builds and reduces the graph of one routine. -/
def recover (s : Settings) (r : Routine) : RoutineResult :=
  let inRoutine (stage : String) (f : Fault) : Fault :=
    .within ("routine " ++ toString r.id ++ ": " ++ stage) f
  match r.build s.table with
  | .error f => { id := r.id, routine := some r, fault := some (inRoutine "build" f) }
  | .ok (g, build) =>
    let m := g.minimize s.table s.passes
    let after := { r with ops := m.graph.ops }
    match m.fault with
    | some f =>
      { id := r.id, routine := some after, build, fault := some (inRoutine "minimize" f) }
    | none => { id := r.id, routine := some after, graph := some m.graph, build, reduce := m.stats }

end Settings

end FlowRecovery

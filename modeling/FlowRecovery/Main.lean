import FlowRecovery.Command.Run

/-! The program: a job in the real world. -/
namespace FlowRecovery

/-- Two faults share a constructor and differ in the system's number for them. -/
def diskFault (call : String) : IO.Error → DiskFault
  | .noFileOrDirectory .. => .notFound
  | .inappropriateType _ number _ => if number = 21 then .isFolder else .notFolder
  | .invalidArgument .. => .nameTooLong
  | .permissionDenied .. => .other call "permission denied"
  | e => .other call (toString e)

/-- What an action comes to; `call` is what it asks the system for. -/
def attempt {α : Type} (call : String) (action : IO α) : IO (Except DiskFault α) := do
  try
    pure (.ok (← action))
  catch e =>
    pure (.error (diskFault call e))

def faultOf {α : Type} : Except DiskFault α → Option DiskFault
  | .ok _ => none
  | .error f => some f

/-- The key that a line names; a line with nothing on it is the key that ended it. -/
def keyOf (line : String) : Picker.Key :=
  let name := String.ofList (line.toList.filter fun c => c ≠ '\n' ∧ c ≠ '\r')
  if name.isEmpty then .enter else .ofName name

/-- Lets a user choose among routines, a line for a key. -/
def pickFrom (routines : List RoutineResult) : IO Pick := do
  let mut picker := Picker.ofRoutines routines
  repeat
    (← IO.getStdout).putStrLn picker.view
    let line ← (← IO.getStdin).getLine
    if line.isEmpty then break
    let (next, left) := picker.update (.key (keyOf line))
    picker := next
    if left then break
  pure picker.choice

def perform : Job → IO UInt32
  | .done none => pure 0
  | .done (some f) => do
    (← IO.getStderr).putStrLn f.text
    pure f.exitStatus.toUInt32
  | .print text next => do
    let answer ← attempt "write" do (← IO.getStdout).putStr text
    perform (next (faultOf answer))
  | .tell _ next => perform next
  | .read path next => do perform (next (← attempt "open" (IO.FS.readBinFile path)))
  | .write path text next => do
    let answer ← attempt "open" (IO.FS.writeFile path text)
    perform (next (faultOf answer))
  | .pick routines next => do
    let answer ← try
        pickFrom routines
      catch e => pure (.failed (toString e))
    perform (next answer)

def surroundings : IO Surroundings := do
  let home ← IO.getEnv "HOME"
  let configHome ← IO.getEnv "XDG_CONFIG_HOME"
  let terminal ← (← IO.getStdout).isTty
  pure { processors := 4, home := home.getD "", configHome := configHome.getD "", terminal }

end FlowRecovery

def main (args : List String) : IO UInt32 := do
  FlowRecovery.perform (FlowRecovery.Command.job (← FlowRecovery.surroundings) args)

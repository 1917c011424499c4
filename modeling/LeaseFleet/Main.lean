import LeaseFleet.Configuration.CommandLine
import LeaseFleet.Json.Reader
import LeaseFleet.Json.Writer
import LeaseFleet.Standalone
import LeaseFleet.View.Worker

/-!
# The program

Runs one worker as its configuration file says, until it fails or the process is ended. What the
worker does is decided elsewhere; here are the reading of the file, the waiting, and the lines that
tell what happens.
-/

namespace LeaseFleet.Program

def orFail {ε α : Type} (message : ε → String) : Except ε α → IO α
  | .ok value => pure value
  | .error error => throw (IO.userError (message error))

def loadSetup (path : String) : IO Setup := do
  let content ← IO.FS.readFile path
  match (Json.read content).bind ConfigurationFile.ofJson? with
  | none => throw (IO.userError ("not a configuration file: " ++ path))
  | some file => orFail SetupError.message (Setup.ofFile file)

def randomId : IO String := do
  let digits ← (List.range 32).mapM fun _ => do
    return Nat.digitChar (← IO.rand 0 15)
  return String.ofList digits

/-- The lines that tell the phases and events of the workers. -/
def newsOf (fleet : Fleet) : List String :=
  fleet.workers.flatMap fun (workerId, worker) =>
    worker.announced.map (fun phase => workerId ++ " is " ++ phase.name) ++
      worker.events.map fun event => workerId ++ " " ++ event.view.write

/-- Lets time pass as it passes, until a task has ended. -/
partial def await (fleet : Fleet) (task : Nat) : IO (Option Outcome) := do
  let fleet := fleet.settle
  for line in newsOf fleet do
    IO.println line
  (← IO.getStdout).flush
  let fleet := fleet.forgetNews
  match fleet.machine.results.get? task, fleet.machine.nextDue with
  | some outcome, _ => return some outcome
  | none, none => return none
  | none, some due =>
    let millis := due - fleet.world.clock
    IO.sleep millis.toUInt32
    let fleet := fleet.changeWorld fun world => { world with epoch := world.epoch + millis }
    await { fleet with machine := fleet.machine.moveTo due } task

/-- Runs a worker until it ends. -/
def runWorker (setup : Setup) (places : Nat) : IO UInt32 := do
  let workerId ← match setup.workerId with
    | some workerId => pure workerId
    | none => randomId
  let fleet := setup.fleet workerId places (← IO.monoMsNow)
  let (task, machine) := fleet.machine.start Duty.behaviour workerId .run
  match ← await { fleet with machine } task with
  | some (.failed .shuttingDown) => return 0
  | some (.failed error) =>
    IO.eprintln ("worker failed: " ++ error.message)
    return 1
  | _ => return 0

def run (arguments : List String) : IO UInt32 := do
  let line ← orFail CommandLineError.message (CommandLine.ofArguments arguments)
  let setup ← loadSetup (← orFail CommandLineError.message line.configPath)
  let setup ← orFail CommandLineError.message (line.adjust setup)
  runWorker setup line.places

end LeaseFleet.Program

/-- Runs the program; an error is told and ends it. -/
def main (arguments : List String) : IO UInt32 := do
  try LeaseFleet.Program.run arguments
  catch error =>
    IO.eprintln ("Error: " ++ toString error)
    return 1

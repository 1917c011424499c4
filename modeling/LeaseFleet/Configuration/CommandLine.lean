import LeaseFleet.Configuration.Setup

/-!
# The command line

The options of the program. Each takes a value, after a blank or an equals sign, and may be given
once.
-/

namespace LeaseFleet

/-- What the command line asks for. -/
structure CommandLine where
  configFile : Option String := none
  /-- Takes the place of the configured worker id. -/
  workerId : Option String := none
  /-- Takes the place of the configured exporter address. -/
  exporter : Option String := none
  /-- The most consumers that work at once. -/
  maxConsumers : Option Nat := none
  deriving DecidableEq, Repr

/-- What is wrong with a command line. -/
inductive CommandLineError where
  | unknownOption (argument : String)
  | missingValue (option : String)
  | repeated (option : String)
  | invalidNumber (text : String) (cause : Decimal.IntegerError)
  | noConfigFile
  | invalidExporter (text : String)
  deriving DecidableEq, Repr

def CommandLineError.message : CommandLineError → String
  | unknownOption argument => "unexpected argument '" ++ argument ++ "' found"
  | missingValue option => "a value is required for '--" ++ option ++ "' but none was supplied"
  | repeated option => "the argument '--" ++ option ++ "' cannot be used multiple times"
  | invalidNumber text cause =>
    "invalid value '" ++ text ++ "' for '--max-consumers': " ++ cause.message
  | noConfigFile => "the required argument '--config-file' was not provided"
  | invalidExporter text =>
    "Failed to parse into Socket address: " ++ text ++ ": " ++ SocketAddress.syntaxProblem

namespace CommandLine

/-- How many consumers work at once unless told otherwise. -/
def standardMaxConsumers : Nat := 256

/-- Sets an option that has not been given yet. -/
def setOnce {α : Type} (option : String) (earlier : Option α) (value : α) :
    Except CommandLineError (Option α) :=
  if earlier.isSome then .error (.repeated option) else .ok (some value)

def set (line : CommandLine) (option value : String) : Except CommandLineError CommandLine := do
  match option with
  | "config-file" => return { line with configFile := ← setOnce option line.configFile value }
  | "worker-id" => return { line with workerId := ← setOnce option line.workerId value }
  | "prom-exporter" => return { line with exporter := ← setOnce option line.exporter value }
  | "max-consumers" =>
    let count ← (Decimal.readWord value.toList).mapError (.invalidNumber value)
    return { line with maxConsumers := ← setOnce option line.maxConsumers count }
  | _ => throw (.unknownOption ("--" ++ option))

/-- Splits an argument into the name of an option and the value that follows an equals sign. -/
def splitArgument (argument : String) : Option (String × Option String) :=
  match argument.toList with
  | '-' :: '-' :: rest =>
    match StreamIdentifier.splitFirst '=' rest with
    | some (option, value) => some (String.ofList option, some (String.ofList value))
    | none => some (String.ofList rest, none)
  | _ => none

def read (line : CommandLine) : List String → Except CommandLineError CommandLine
  | [] => .ok line
  | argument :: rest =>
    match splitArgument argument, rest with
    | none, _ => .error (.unknownOption argument)
    | some (option, some value), rest => do (← line.set option value).read rest
    | some (option, none), value :: rest => do (← line.set option value).read rest
    | some (option, none), [] => .error (.missingValue option)

def ofArguments (arguments : List String) : Except CommandLineError CommandLine :=
  ({} : CommandLine).read arguments

def configPath (line : CommandLine) : Except CommandLineError String :=
  match line.configFile with
  | some path => .ok path
  | none => .error .noConfigFile

def places (line : CommandLine) : Nat := line.maxConsumers.getD standardMaxConsumers

/-- The settings after the options have taken the place of the configured ones. -/
def adjust (line : CommandLine) (setup : Setup) : Except CommandLineError Setup := do
  let exporter ← match line.exporter with
    | none => pure setup.exporter
    | some text =>
      match SocketAddress.ofText? text with
      | some address => pure (some address)
      | none => throw (.invalidExporter text)
  return { setup with workerId := line.workerId.or setup.workerId, exporter }

end CommandLine

end LeaseFleet

import Stowage.Backend.Selection
import Stowage.Cli.Command
import Stowage.Cli.Report
import Stowage.Environment.Assignments
import Stowage.Message
/-!
# Stowage — running commands

A run of the program: it takes variables from the file `.env`, reads its arguments, and does what they
ask for. Whatever goes wrong ends the run with a report; what was written before stays.
-/

namespace Stowage.Cli

/-- How a run ends: the exit code, what is printed, and what is said about a failure. -/
structure Outcome where
  code : Nat
  output : Bytes
  complaint : String
deriving DecidableEq, Repr

/-- A part of a run: it ends with a result or with a report. -/
abbrev Task := ExceptT Report Program

/-- The result, or else a report on why there is none. -/
def orReport {ε α : Type} (report : ε → Report) (result : Except ε α) : Task α :=
  ExceptT.mk (.done (result.mapError report))

/-- The report on a configuration that cannot be used. -/
def configReport (why : Config.Error) : Report := .ofFailure (.config why)

def configReportIn (what : String) (why : Config.Error) : Report :=
  .ofFailureIn what (.config why)

/-! ## Files -/

/-- The reply about a file. Waiting for it without an end counts as an interruption. -/
def settled {α : Type} (reply : Option (Except Disk.Error α)) : Except Disk.Error α :=
  reply.getD (.error (.other 4 "Interrupted system call"))

def content (path : String) : Program (Except Disk.Error Bytes) :=
  .call (.read path) fun reply => .done (settled reply)

def put (path : String) (bytes : Bytes) : Program (Except Disk.Error Unit) :=
  .call (.change (.write path bytes)) fun reply => .done (settled reply)

/-- The message at a path, or in the standard input. -/
def message (path : Option String) : Task Bytes :=
  match path with
  | none => Program.perform .input
  | some path => do
    orReport (.ofFile s!"failed to read {path}") (← content path)

/-- Gives out a message: into a file, or printed on a line. -/
def deliver (path : Option String) (bytes : Bytes) : Task Bytes :=
  match path with
  | none => pure (bytes ++ utf8 "\n")
  | some path => do
    orReport (.ofFile s!"failed to write {path}") (← put path bytes)
    pure []

/-! ## Commands -/

/-- The valid configuration in a file, as the environment overrides it. -/
def load (env : Environment) (path : String) : Task Config := do
  let config ← orReport (configReportIn s!"failed to load {path}")
    (Config.ofFile path (← content path))
  let config := config.override env
  orReport (configReportIn "invalid offload configuration") config.validate
  pure config

def backendOf (env : Environment) (path : String) : Task (Backend Program) := do
  match ← orReport configReport (← load env path).connect with
  | some backend => pure backend
  | none => throw ⟨s!"no store enabled in {path}", []⟩

def recordsOf (env : Environment) (path : String) : Task RecordStore := do
  orReport configReport (← load env path).recordStore

def convert (env : Environment) (config : String) (input output : Option String)
    (label : String) (change : Backend Program → Bytes → Program (Except Failure Bytes)) :
    Task Bytes := do
  let backend ← backendOf env config
  let bytes ← message input
  let changed ← orReport (.ofFailureIn label) (← change backend bytes)
  deliver output changed

/-- Shows a record without its data. -/
def inspect (env : Environment) (config id : String) : Task Bytes := do
  let records ← recordsOf env config
  let record ← orReport (.ofFailureIn s!"failed to read record {id}") (← records.load id)
  pure (Json.printLines { record with data := none }.members ++ utf8 "\n")

def delete (env : Environment) (config id : String) : Task Bytes := do
  let records ← recordsOf env config
  orReport (.ofFailureIn s!"failed to delete record {id}") (← records.delete id)
  pure (utf8 s!"Deleted {id}\n")

def serve (port maximum : Nat) : Task Bytes := do
  let why : String ← Program.perform (.listen port maximum)
  throw ⟨s!"chunk host stopped: {why}", []⟩

def usage : String :=
  "Usage: offload-rs <COMMAND>\n\nCommands:\n" ++
  "  serve    [--port <PORT>] [--max-payload <BYTES>]\n" ++
  "  offload  --config <FILE> [--input <FILE>] [--output <FILE>]\n" ++
  "  resolve  --config <FILE> [--input <FILE>] [--output <FILE>]\n" ++
  "  inspect  --config <FILE> <ID>\n" ++
  "  delete   --config <FILE> <ID>\n"

/-- Does what the program is asked for. The result is what is printed. -/
def Command.task (env : Environment) : Command → Task Bytes
  | .help => pure (utf8 usage)
  | .version => pure (utf8 "offload-rs 0.1.0\n")
  | .serve port maximum => Cli.serve port maximum
  | .offload config input output =>
    convert env config input output "failed to offload message" Message.offload
  | .resolve config input output =>
    convert env config input output "failed to resolve message" Message.resolve
  | .inspect config id => Cli.inspect env config id
  | .delete config id => Cli.delete env config id

def Outcome.ofResult : Except Report Bytes → Outcome
  | .ok output => ⟨0, output, ""⟩
  | .error report => ⟨1, [], report.text⟩

/-- The environment with what the file `.env` provides, if there is one. -/
def environment (env : Environment) : Program Environment := do
  match ← content ".env" with
  | .ok bytes => pure (env.provideFile bytes)
  | .error _ => pure env

def run (env : Environment) (arguments : List String) : Program Outcome := do
  let env ← environment env
  match Command.ofArguments arguments with
  | .error misuse => pure ⟨2, [], s!"error: {misuse.message}\n\n{usage}"⟩
  | .ok command => Outcome.ofResult <$> (command.task env).run

end Stowage.Cli

import SchemaDrift.Command.Arguments
import SchemaDrift.Drift.JsonReport
import SchemaDrift.Drift.TextReport
import SchemaDrift.Verify.RunLog

/-!
# Running a command line

A command line that reads well starts one verification run. Its result is what the program prints,
what it logs and its exit code.
-/

namespace SchemaDrift.Command

/-- A run as a command line asks for it. -/
structure Invocation where
  options : Options
  format : OutputFormat
  verbosity : Nat
deriving DecidableEq

/-- The run that a command line asks for. A path comes from the command line, or else from the
environment, or else is the usual one. -/
def invocation (e : Environment) (args : List String) : Except Stop Invocation := do
  let (g, check) ← readArguments e args
  let usual : Options := {}
  return {
    options := {
      migrationsDir := (g.migrations.or e.migrations).getD usual.migrationsDir
      typesFile := (g.types.or e.types).getD usual.typesFile
      modulesDir := (g.modules.or e.modules).getD usual.modulesDir
      moduleFile := g.moduleFile.getD usual.moduleFile
      pairing := g.pairing.getD usual.pairing
      includeTables := g.tables
      excludeTables := g.excludeTables
      check }
    format := g.format.getD .text
    verbosity := g.verbosity }

/-- What a program run leaves behind. -/
structure Result where
  code : Nat
  output : String := ""
  log : List LogLine := []
deriving DecidableEq

/-- The text of the first error that was logged, up to a line break. -/
def Result.fault? (r : Result) : Option String :=
  (r.log.find? (·.level = .error)).map fun l => firstLine l.messageText

/-- The log lines that are shown at a verbosity: errors and warnings, then more with each step. -/
def shown (verbosity : Nat) (log : List LogLine) : List LogLine :=
  log.filter fun l => l.level.rank ≤ LogLevel.warn.rank + verbosity

/-- A report as it is printed. -/
def printed (format : OutputFormat) (v : Verification) : String :=
  match format with
  | .text => v.report.renderText v.check
  | .json => v.report.renderJson v.check ++ "\n"

/-- What a run leaves behind. -/
def Invocation.run (i : Invocation) (t : Files.FileTree) : Result :=
  let start : LogLine :=
    { level := .debug
      message := "starting verification"
      fields := [("options", i.options.logText)] }
  let log := start :: verifyLog t i.options
  match verify t i.options with
  | .ok v =>
    { code := v.status.code, output := printed i.format v, log := shown i.verbosity log }
  | .error f =>
    { code := ExitStatus.fault.code
      log := shown i.verbosity (log ++ [{ level := .error, message := f.message }]) }

/-- What a command line that starts no run leaves behind. -/
def Stop.result : Stop → Result
  | invalid => { code := ExitStatus.fault.code }
  | help => { code := ExitStatus.clean.code }
  | version => { code := ExitStatus.clean.code, output := "driftcheck 0.4.2\n" }

/-- Runs a command line in a file tree. -/
def run (e : Environment) (args : List String) (t : Files.FileTree) : Result :=
  match invocation e args with
  | .ok i => i.run t
  | .error s => s.result

end SchemaDrift.Command

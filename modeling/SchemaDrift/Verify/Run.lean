import SchemaDrift.Drift.Analysis
import SchemaDrift.Drift.TableFilter
import SchemaDrift.Files.Load
import SchemaDrift.Migration.Extract
import SchemaDrift.Query.Extract
import SchemaDrift.RowType.Extract
import SchemaDrift.Verify.Options

/-!
# A verification run

A run compiles its table filter, loads the inputs that its check needs, extracts a snapshot of each
and compares them. An input that is not needed is not looked at, and its snapshot is empty. Drift is
part of the result; only a bad filter or a missing input is a fault, and the first one wins.
-/

namespace SchemaDrift

/-- What a run found. -/
structure Verification where
  report : DriftReport
  diagnostics : List Diagnostic
  check : Check
deriving DecidableEq

namespace Verification

/-- How a run ends. -/
def status (v : Verification) : ExitStatus :=
  v.report.status v.check

/-- Whether a run found nothing that fails its check. -/
def passed (v : Verification) : Bool :=
  v.status = .clean

/-- The number of diagnostics of a kind. -/
def diagnosticCount (v : Verification) (kind : DiagnosticKind) : Nat :=
  v.diagnostics.countP (·.kind = kind)

end Verification

namespace Options

open Files

/-- The table filter of a run. -/
def tableFilter (o : Options) : Except Fault TableFilter :=
  (TableFilter.ofTexts o.includeTables o.excludeTables).mapError fun e => .invalidFilter e.message

/-- The migrations of a run. -/
def migrations (o : Options) (t : FileTree) : Except Fault Loaded :=
  loadMigrations t o.migrationsDir

/-- The type file of a run, if its check needs one. -/
def typeFile (o : Options) (t : FileTree) : Except Fault (Option (Source × List LogLine)) :=
  if o.check.needsTypes then (loadTypes t o.typesFile).map some else .ok none

/-- The query modules of a run, if its check needs them. -/
def modules (o : Options) (t : FileTree) : Except Fault (Option Loaded) :=
  if o.check.needsModules then (loadModules t o.modulesDir o.moduleFile).map some else .ok none

end Options

/-- The report of a check: comparisons that it does not include are discarded, and a filter with
patterns keeps the tables it accepts. -/
def checkedReport (check : Check) (filter : TableFilter) (report : DriftReport) : DriftReport :=
  let selected := (Comparison.all.filter (!check.includes ·)).foldl DriftReport.discard report
  if filter.isEmpty then selected else selected.retainTables filter

/-- What a run finds in the sources of its inputs. -/
def verifySources (o : Options) (filter : TableFilter) (migrations : List Source)
    (typeFile : Option Source) (modules : Option (List Source)) : Verification :=
  let schema := Migration.extract migrations
  let types := (typeFile.map RowType.extract).getD ⟨{}, []⟩
  let usage := (modules.map (Query.extract o.pairing)).getD ⟨{}, []⟩
  { report := checkedReport o.check filter (analyze schema.snapshot types.snapshot usage.snapshot)
    diagnostics := schema.diagnostics ++ types.diagnostics ++ usage.diagnostics
    check := o.check }

/-- A verification run on a file tree. -/
def verify (t : Files.FileTree) (o : Options) : Except Fault Verification := do
  let filter ← o.tableFilter
  let migrations ← o.migrations t
  let typeFile ← o.typeFile t
  let modules ← o.modules t
  return verifySources o filter migrations.sources (typeFile.map (·.1)) (modules.map (·.sources))

end SchemaDrift

import SchemaDrift.Verify.Run

/-!
# The log of a run

A run logs in stages: each input that it loads, what its extraction noticed, and the totals at the
end. The log stops at the stage that has a fault.
-/

namespace SchemaDrift

/-- The log of stages up to the first fault. -/
def logUntilFault : List (Except Fault (List LogLine)) → List LogLine
  | .ok lines :: stages => lines ++ logUntilFault stages
  | .error _ :: _ => []
  | [] => []

/-- The log of the migrations. -/
def migrationStage (loaded : Files.Loaded) : List LogLine :=
  loaded.log ++
    [{ level := .debug
       message := "extracting schema"
       fields := [("files", toString loaded.sources.length)] }] ++
    Migration.log loaded.sources ++
    (Migration.extract loaded.sources).diagnostics.map Diagnostic.logLine

/-- The log of the type file. -/
def typeStage (source : Source) (log : List LogLine) : List LogLine :=
  let types := RowType.extract source
  log ++
    [{ level := .debug, message := "extracting types", fields := [("file", source.name)] }] ++
    RowType.log types.snapshot ++ types.diagnostics.map Diagnostic.logLine

/-- The log of the query modules. -/
def moduleStage (pairing : Pairing) (loaded : Files.Loaded) : List LogLine :=
  loaded.log ++
    [{ level := .debug
       message := "extracting usage"
       fields := [("modules", toString loaded.sources.length)] }] ++
    Query.log loaded.sources ++
    (Query.extract pairing loaded.sources).diagnostics.map Diagnostic.logLine

/-- The line on what a run found. -/
def Verification.logLine (v : Verification) : LogLine where
  level := .info
  message := "analysis complete"
  fields := [("tables", toString v.report.tables.size),
    ("foreign_keys", toString v.report.foreignKeys.length),
    ("diagnostics", toString v.diagnostics.length)]

/-- The log of a verification run. -/
def verifyLog (t : Files.FileTree) (o : Options) : List LogLine :=
  logUntilFault
    [o.tableFilter.map fun _ => [],
     (o.migrations t).map migrationStage,
     (o.typeFile t).map fun f => (f.map fun x => typeStage x.1 x.2).getD [],
     (o.modules t).map fun m => (m.map (moduleStage o.pairing)).getD [],
     (verify t o).map fun v => [v.logLine]]

end SchemaDrift

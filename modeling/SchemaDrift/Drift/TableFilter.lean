import SchemaDrift.Drift.Report
import SchemaDrift.Wildcard.Match

/-!
# Selecting tables by patterns

A filter keeps a table that no excluding pattern accepts and some including pattern accepts; without
including patterns it keeps every table that is not excluded.
-/

namespace SchemaDrift

/-- Patterns of tables to keep and of tables to leave out. -/
structure TableFilter where
  included : List Wildcard.Pattern := []
  excluded : List Wildcard.Pattern := []
deriving DecidableEq

namespace TableFilter

/-- The filter with given patterns; the first text that is no pattern is an error. -/
def ofTexts (included excluded : List String) : Except Wildcard.PatternError TableFilter := do
  let included ← included.mapM Wildcard.Pattern.ofText
  let excluded ← excluded.mapM Wildcard.Pattern.ofText
  return { included, excluded }

/-- Whether a filter has no pattern. -/
def isEmpty (f : TableFilter) : Bool :=
  f.included.isEmpty && f.excluded.isEmpty

/-- Whether a filter keeps a table. -/
def accepts (f : TableFilter) (table : String) : Bool :=
  !(f.excluded.any (·.accepts table)) &&
    (f.included.isEmpty || f.included.any (·.accepts table))

end TableFilter

/-- The report on the tables that a filter keeps. -/
def DriftReport.retainTables (r : DriftReport) (f : TableFilter) : DriftReport :=
  r.retain f.accepts

end SchemaDrift

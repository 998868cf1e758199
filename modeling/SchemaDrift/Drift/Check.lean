import SchemaDrift.Drift.Report

/-!
# Checks and verdicts

A check selects comparisons. A run fails if a selected comparison that is more than advice found
anything.
-/

namespace SchemaDrift

/-- Which comparisons a run makes. -/
inductive Check
  | all
  | sync
  | usage
  | relations
deriving DecidableEq

namespace Check

/-- The comparisons that a check selects. -/
def comparisons : Check → List Comparison
  | all => Comparison.all
  | sync => [.sync]
  | usage => [.usage]
  | relations => [.relations]

/-- Whether a check selects a comparison. -/
def includes (k : Check) (c : Comparison) : Bool :=
  k.comparisons.contains c

/-- Whether a check reads the type file. -/
def needsTypes (k : Check) : Bool :=
  k.includes .sync

/-- Whether a check reads query modules. -/
def needsModules (k : Check) : Bool :=
  k.includes .usage || k.includes .relations

/-- The name of a check. -/
def name : Check → String
  | all => "all"
  | sync => "sync"
  | usage => "usage"
  | relations => "relations"

/-- The name of a check in the log. -/
def logName : Check → String
  | all => "All"
  | sync => "Sync"
  | usage => "Usage"
  | relations => "Relations"

/-- The check with a name. -/
def ofName? (s : String) : Option Check :=
  [all, sync, usage, relations].find? fun k => k.name == s

end Check

/-- How a run ends. -/
inductive ExitStatus
  | clean
  | driftFound
  | fault
deriving DecidableEq

/-- The exit code of a run. -/
def ExitStatus.code : ExitStatus → Nat
  | clean => 0
  | driftFound => 1
  | fault => 2

/-- How much the selected comparisons found that are more than advice. -/
def DriftReport.failingIssues (r : DriftReport) (k : Check) : Nat :=
  ((k.comparisons.filter fun c => !c.isAdvisory).map r.issueCount).foldr (· + ·) 0

/-- How a run with a report ends. -/
def DriftReport.status (r : DriftReport) (k : Check) : ExitStatus :=
  if r.failingIssues k = 0 then .clean else .driftFound

end SchemaDrift

/-!
# Faults

A fault is a reason why a run has no report. Drift is none.
-/

namespace SchemaDrift

/-- The inputs of a run. -/
inductive InputKind
  | migrations
  | types
  | modules
deriving DecidableEq

/-- What an input is called in messages. -/
def InputKind.description : InputKind → String
  | migrations => "migrations directory"
  | types => "type file"
  | modules => "modules directory"

/-- Why a run has no report. -/
inductive Fault
  | missingInput (kind : InputKind) (path : String)
  | unreadable (path reason : String)
  | invalidPattern (pattern reason : String)
  | invalidFilter (reason : String)
deriving DecidableEq

namespace Fault

/-- What is said of a fault. -/
def message : Fault → String
  | missingInput kind path => kind.description ++ " not found: " ++ path
  | unreadable path reason => "Failed to read " ++ path ++ ": " ++ reason
  | invalidPattern pattern reason => "Invalid file pattern " ++ pattern ++ ": " ++ reason
  | invalidFilter reason => "Invalid table filter pattern: " ++ reason

/-- Whether a fault is an input that is not there. -/
def isMissingInput : Fault → Bool
  | missingInput .. => true
  | _ => false

end Fault

end SchemaDrift

import SchemaDrift.Log

/-!
# Sources, diagnostics and extractions

An extractor turns named texts into a snapshot and reports what it had to skip.
-/

namespace SchemaDrift

/-- A named text. -/
structure Source where
  name : String
  text : String
deriving DecidableEq

/-- Why a fragment of a source was skipped. -/
inductive DiagnosticKind
  | parseSkip
  | unsupportedStatement
  | orphanReference
  | unpairedPredicate
deriving DecidableEq

/-- The kinds of diagnostics. -/
def DiagnosticKind.all : List DiagnosticKind :=
  [parseSkip, unsupportedStatement, orphanReference, unpairedPredicate]

/-- The name of a kind in data. -/
def DiagnosticKind.tag : DiagnosticKind → String
  | parseSkip => "parse_skip"
  | unsupportedStatement => "unsupported_statement"
  | orphanReference => "orphan_reference"
  | unpairedPredicate => "unpaired_predicate"

/-- The name of a kind in the log. -/
def DiagnosticKind.logName : DiagnosticKind → String
  | parseSkip => "ParseSkip"
  | unsupportedStatement => "UnsupportedStatement"
  | orphanReference => "OrphanReference"
  | unpairedPredicate => "UnpairedPredicate"

/-- A fragment of a source that was skipped. -/
structure Diagnostic where
  source : String
  kind : DiagnosticKind
  message : String
deriving DecidableEq

/-- Whether a diagnostic deserves a warning. -/
def Diagnostic.isWarning (d : Diagnostic) : Bool :=
  match d.kind with
  | .unsupportedStatement | .orphanReference => true
  | .parseSkip | .unpairedPredicate => false

/-- The log line of a diagnostic. -/
def Diagnostic.logLine (d : Diagnostic) : LogLine where
  level := if d.isWarning then .warn else .debug
  message := d.message
  fields := [("source", d.source), ("kind", d.kind.logName)]

/-- A snapshot and what was skipped on the way to it. -/
structure Extraction (σ : Type) where
  snapshot : σ
  diagnostics : List Diagnostic

end SchemaDrift

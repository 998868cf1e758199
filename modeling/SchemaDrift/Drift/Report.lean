import SchemaDrift.Snapshot.Basic

/-!
# Drift reports

Three comparisons are made for every table: the schema against the declared types, the columns in
use against the schema, and the join keys in use against the foreign keys. A report holds what each
comparison found for each table.
-/

namespace SchemaDrift

/-- The comparisons made for every table. -/
inductive Comparison
  | sync
  | usage
  | relations
deriving DecidableEq

namespace Comparison

/-- The comparisons in the order in which they are reported. -/
def all : List Comparison :=
  [sync, usage, relations]

/-- Whether a comparison only gives advice and never fails a run. -/
def isAdvisory : Comparison → Bool
  | relations => true
  | sync | usage => false

/-- The name of a comparison. -/
def name : Comparison → String
  | sync => "sync"
  | usage => "usage"
  | relations => "relations"

/-- The comparison with a name. -/
def ofName? (s : String) : Option Comparison :=
  all.find? fun c => c.name == s

end Comparison

/-- What the comparisons found for one table: columns in use that the schema lacks, columns of the
schema that the types lack, columns of the types that the schema lacks, and join keys in use that
are no foreign keys. -/
structure TableDrift where
  phantomBackend : SortedSet String := ∅
  missingInTypes : SortedSet String := ∅
  missingInSql : SortedSet String := ∅
  undeclaredRelations : SortedSet ModuleColumn := ∅
deriving DecidableEq

namespace TableDrift

/-- Whether columns are in use that the schema lacks. -/
def isDirty (d : TableDrift) : Bool :=
  !d.phantomBackend.isEmpty

/-- Whether schema and types have the same columns. -/
def isSynchronized (d : TableDrift) : Bool :=
  d.missingInTypes.isEmpty && d.missingInSql.isEmpty

/-- Whether a comparison found nothing. -/
def isClean (d : TableDrift) : Comparison → Bool
  | .sync => d.isSynchronized
  | .usage => !d.isDirty
  | .relations => d.undeclaredRelations.isEmpty

/-- How much a comparison found. -/
def issueCount (d : TableDrift) : Comparison → Nat
  | .sync => d.missingInTypes.size + d.missingInSql.size
  | .usage => d.phantomBackend.size
  | .relations => d.undeclaredRelations.size

/-- What remains without the findings of a comparison. -/
def discard (d : TableDrift) : Comparison → TableDrift
  | .sync => { d with missingInTypes := ∅, missingInSql := ∅ }
  | .usage => { d with phantomBackend := ∅ }
  | .relations => { d with undeclaredRelations := ∅ }

end TableDrift

/-- How many tables a comparison found clean. -/
structure Summary where
  total : Nat
  clean : Nat
  dirty : Nat
deriving DecidableEq

/-- The percentage of clean tables; without tables everything is clean. -/
def Summary.score (s : Summary) : Float :=
  if s.total = 0 then 100.0 else Float.ofNat s.clean / Float.ofNat s.total * 100.0

/-- What was found for every table, with the declared foreign keys, the number of relation
candidates, and what identifies the schema and the types that were compared. -/
structure DriftReport where
  tables : SortedMap String TableDrift
  foreignKeys : List ForeignKey
  relationCandidates : Nat
  schemaFingerprint : String
  typesFingerprint : String
deriving DecidableEq

namespace DriftReport

/-- How many tables a comparison found clean. -/
def summary (r : DriftReport) (c : Comparison) : Summary :=
  let clean := (r.tables.values.filter (·.isClean c)).length
  { total := r.tables.size, clean, dirty := r.tables.size - clean }

/-- How much a comparison found for all tables. -/
def issueCount (r : DriftReport) (c : Comparison) : Nat :=
  (r.tables.values.map (·.issueCount c)).foldr (· + ·) 0

/-- Whether no table drifts on a comparison that is more than advice. -/
def passed (r : DriftReport) : Bool :=
  r.tables.values.all fun d => !d.isDirty && d.isSynchronized

/-- The report without the findings of a comparison. -/
def discard (r : DriftReport) (c : Comparison) : DriftReport :=
  { r with tables := r.tables.mapValues (·.discard c) }

/-- The report on the tables that satisfy a test, with the foreign keys that they declare. -/
def retain (r : DriftReport) (keep : String → Bool) : DriftReport :=
  { r with
    tables := r.tables.filterKeys keep
    foreignKeys := r.foreignKeys.filter fun fk => keep fk.sourceTable }

end DriftReport

end SchemaDrift

import SchemaDrift.Snapshot.ColumnSet

/-!
# The three snapshots

What is known about the tables of a project: the schema that its migrations build up, the columns
that its type file declares, and the columns that its query modules use.
-/

namespace SchemaDrift

/-- A column that refers to a column of another table. -/
structure ForeignKey where
  sourceTable : String
  sourceColumn : String
  targetTable : String
  targetColumn : String
deriving DecidableEq

/-- Foreign keys are ordered by their four names in turn. -/
instance : Ord ForeignKey where
  compare := compareLex (compareOn ForeignKey.sourceTable) (compareLex
    (compareOn ForeignKey.sourceColumn) (compareLex (compareOn ForeignKey.targetTable)
      (compareOn ForeignKey.targetColumn)))

/-- The schema that a history of migrations builds up. Foreign keys stand in the order in which
they were declared. -/
structure Schema where
  columns : ColumnSet := ∅
  foreignKeys : List ForeignKey := []
deriving DecidableEq

/-- Whether a foreign key starts at a column. -/
def Schema.hasForeignKey (s : Schema) (table column : String) : Bool :=
  s.foreignKeys.any fun fk => fk.sourceTable == table && fk.sourceColumn == column

/-- The columns that a type file declares. -/
structure RowTypes where
  columns : ColumnSet := ∅
deriving DecidableEq

/-- The tables and columns that a module mentions. -/
structure ModuleUsage where
  tables : SortedSet String := ∅
  columns : SortedSet String := ∅
deriving DecidableEq

/-- A column as a module uses it. -/
structure ModuleColumn where
  module : String
  column : String
deriving DecidableEq

namespace ModuleColumn

/-- Columns of modules are ordered by module and then by column. -/
instance : Ord ModuleColumn where
  compare := compareLex (compareOn ModuleColumn.module) (compareOn ModuleColumn.column)

instance : Std.TransOrd ModuleColumn :=
  inferInstanceAs (Std.TransCmp (compareLex (compareOn ModuleColumn.module)
    (compareOn ModuleColumn.column)))

instance : Std.LawfulEqOrd ModuleColumn where
  eq_of_compare {a b} h := by
    have h : (compare a.module b.module).then (compare a.column b.column) = .eq := h
    rw [Ordering.then_eq_eq, Std.LawfulEqOrd.compare_eq_iff_eq,
      Std.LawfulEqOrd.compare_eq_iff_eq] at h
    cases a; cases b; simp_all

end ModuleColumn

/-- A column that a module compares as if it were a join key, with the tables it was used on and
the name it was compared with first. -/
structure RelationCandidate where
  module : String
  column : String
  tables : SortedSet String
  argument : Option String
deriving DecidableEq

/-- What query modules use. -/
structure Usage where
  modules : SortedMap String ModuleUsage := ∅
  columns : ColumnSet := ∅
  relationCandidates : List RelationCandidate := []
deriving DecidableEq

/-- The relation candidates that were used on a table. -/
def Usage.candidatesFor (u : Usage) (table : String) : List RelationCandidate :=
  u.relationCandidates.filter fun c => decide (table ∈ c.tables)

end SchemaDrift

import SchemaDrift.Collection.SortedMap

/-!
# Tables and their columns

A column set gives every table it names a set of columns, which may be empty. Names are compared
exactly, and listings are in the order of code points.
-/

namespace SchemaDrift

/-- The columns of each table. -/
structure ColumnSet where
  tables : SortedMap String (SortedSet String)
deriving DecidableEq

namespace ColumnSet

/-- No tables. -/
def empty : ColumnSet :=
  ⟨.empty⟩

instance : EmptyCollection ColumnSet := ⟨empty⟩

instance : Inhabited ColumnSet := ⟨empty⟩

/-- The set with a table named; columns it has are kept. -/
def insertTable (s : ColumnSet) (table : String) : ColumnSet :=
  ⟨s.tables.update table (·.getD ∅)⟩

/-- The set with a column added to a table, which is named if it was not. -/
def insertColumn (s : ColumnSet) (table column : String) : ColumnSet :=
  ⟨s.tables.update table fun columns => (columns.getD ∅).insert column⟩

/-- The columns of a table that is named. -/
def columns? (s : ColumnSet) (table : String) : Option (SortedSet String) :=
  s.tables.get? table

/-- The columns of a table; none if it is not named. -/
def columnsOf (s : ColumnSet) (table : String) : SortedSet String :=
  (s.columns? table).getD ∅

/-- Whether a table is named. -/
def containsTable (s : ColumnSet) (table : String) : Bool :=
  s.tables.contains table

/-- Whether a table has a column. -/
def containsColumn (s : ColumnSet) (table column : String) : Bool :=
  decide (column ∈ s.columnsOf table)

/-- Adds a column and tells whether it is new. -/
def addColumn (s : ColumnSet) (table column : String) : Bool × ColumnSet :=
  (!s.containsColumn table column, s.insertColumn table column)

/-- The names of the tables. -/
def tableNames (s : ColumnSet) : SortedSet String :=
  s.tables.keys

/-- The tables with their columns, in order. -/
def toList (s : ColumnSet) : List (String × List String) :=
  s.tables.entries.map fun e => (e.1, e.2.toList)

/-- The number of tables. -/
def size (s : ColumnSet) : Nat :=
  s.tables.size

/-- Whether no table is named. -/
def isEmpty (s : ColumnSet) : Bool :=
  s.tables.isEmpty

/-- The number of columns of all tables. -/
def columnCount (s : ColumnSet) : Nat :=
  (s.tables.values.map SortedSet.size).foldr (· + ·) 0

/-- The set with a table and columns of it. -/
def insertMany (s : ColumnSet) (table : String) (columns : List String) : ColumnSet :=
  columns.foldl (fun s column => s.insertColumn table column) (s.insertTable table)

/-- The set that a list of tables with columns names. -/
def ofList (tables : List (String × List String)) : ColumnSet :=
  tables.foldl (fun s t => s.insertMany t.1 t.2) empty

end ColumnSet

end SchemaDrift

import SchemaDrift.Query.Call
import SchemaDrift.Scan.Bracket

/-!
# Events of a query module

What a module does, in the order of its text: it selects a table, or it uses a column. Every use of
a column is then attributed to the table selected last before it.
-/

namespace SchemaDrift.Query

open SchemaDrift.Text SchemaDrift.Scan

/-- The use of a column: whether it is compared for equality, and with which name. -/
structure ColumnUse where
  name : String
  equality : Bool
  argument : Option String
deriving DecidableEq

/-- What a module does. -/
inductive Event
  | table (name : String)
  | column (use : ColumnUse)
deriving DecidableEq

/-- The selections of tables in a text, each with its position. -/
def tableEvents (text : List Char) : List (Nat × Event) :=
  (occurrences (fun _ => fromCall) text).map fun o => (o.start, .table (String.ofList o.value))

/-- The use of a column by a call on it. -/
def Predicate.use (p : Predicate) : ColumnUse where
  name := String.ofList p.column
  equality := p.operator == ['e', 'q']
  argument := p.argument.map String.ofList

/-- The calls on columns in a text, each with its position. -/
def predicateEvents (text : List Char) : List (Nat × Event) :=
  (occurrences (fun _ => predicateCall) text).map fun o => (o.start, .column o.value.use)

/-- The columns that several comparisons in one text use. -/
def comparedColumns (filters : List Char) : List (List Char) :=
  (splitTopLevel .typeScript ',' filters).filterMap fun part =>
    (comparedColumn.best? (trim part)).map (·.1)

/-- The columns used by calls that give several comparisons, each with the position of its call. -/
def orEvents (text : List Char) : List (Nat × Event) :=
  (occurrences (fun _ => orCall) text).flatMap fun o =>
    (comparedColumns o.value).map fun column =>
      (o.start, .column ⟨String.ofList column, false, none⟩)

/-- Events in the order of their positions. -/
def inOrder (placed : List (Nat × Event)) : List Event :=
  (placed.mergeSort fun a b => decide (a.1 ≤ b.1)).map (·.2)

/-- The events in a text without comments, in the order of their positions. -/
def events (text : List Char) : List Event :=
  inOrder (tableEvents text ++ predicateEvents text ++ orEvents text)

/-- The tables that events select. -/
def tablesOf (es : List Event) : List String :=
  es.filterMap fun
    | .table name => some name
    | .column _ => none

/-- The uses of columns among events, each with the table selected last before it. -/
def usesFrom : (current : Option String) → List Event → List (Option String × ColumnUse)
  | _, [] => []
  | _, .table name :: es => usesFrom (some name) es
  | current, .column use :: es => (current, use) :: usesFrom current es

/-- The uses of columns in a module, each with the table selected last before it. -/
def usesOf (es : List Event) : List (Option String × ColumnUse) :=
  usesFrom none es

end SchemaDrift.Query

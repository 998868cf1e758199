import SchemaDrift.Proofs.RowType.Heads
import SchemaDrift.Proofs.RowType.Members
import SchemaDrift.Proofs.Snapshot.Columns

/-!
# Exactness on type files

The rows that are found in a rendered type file are its declarations, in order (`rows_render`): the
search finds the head of each declaration and nothing else, the braces enclose its body, and the
scan of the body gives the names of its members. So what is extracted is what the file declares,
and nothing is reported (`extract_render_exact`).
-/

namespace SchemaDrift.TypeFile

open Text Scan Migration RowType

/-! ## Rows -/

/-- The row that a declaration stands for. -/
def Declaration.row (d : Declaration) : Row :=
  ⟨d.table.text, some d.columns⟩

/-- What the search for rows makes of an occurrence of a head. -/
def rowAt (o : Occurrence (List Char)) : Row :=
  ⟨String.ofList o.value, (enclosed? .typeScript ('{' :: o.rest)).map fun body =>
    (memberNames body).map String.ofList⟩

/-- At the head of a declaration, its row is read. -/
theorem rowAt_head (d : Declaration) (i j : Nat) (rest : List Char) :
    rowAt ⟨i, j, d.table.chars, d.body ++ (tail ++ rest)⟩ = d.row := by
  simp only [rowAt, d.enclosed?_body rest, Option.map_some, memberNames_body]
  rfl

/-- A search of a type file finds the rows of its declarations. -/
theorem search_render (file : List Declaration) (i : Nat) {before : Option Char}
    (hbefore : before.any isWord = false) :
    (search rowHead 0 i before (render file)).map rowAt = file.map Declaration.row := by
  induction file generalizing i before with
  | nil => rfl
  | cons d file ih =>
    have hhead : d.head ≠ [] := by
      simp [Declaration.head]
    have hline : render (d :: file) = d.head ++ ((d.body ++ tail) ++ render file) := by
      simp [render, Declaration.line]
    have hend : ∀ b, ((d.body ++ tail).getLast?.or b).any isWord = false := by
      intro b
      rw [List.getLast?_append]
      exact isWord_of_isPunctuation (c := '\n') (by decide)
    rw [hline, search_found i hhead (best?_rowHead d hbefore _),
      search_refused _ _ fun x hne hx b => read_rowHead_eq_nil d file hne hx b,
      List.map_cons, List.map_cons, ih _ (hend _), List.append_assoc, rowAt_head]

/-- The rows of a type file are those of its declarations. -/
theorem rows_render (file : List Declaration) :
    rows (render file) = file.map Declaration.row :=
  search_render file 0 rfl

/-! ## Columns -/

/-- The tables of a type file are those of its declarations. -/
theorem containsTable_foldl_record (file : List Declaration) (s : ColumnSet) (table : String) :
    ((file.map Declaration.row).foldl record s).containsTable table ↔
      (∃ d ∈ file, d.table.text = table) ∨ s.containsTable table := by
  induction file generalizing s with
  | nil => simp
  | cons d file ih =>
    show ((file.map Declaration.row).foldl record
      (s.insertMany d.table.text d.columns)).containsTable table ↔ _
    rw [ih, ColumnSet.containsTable_insertMany, List.exists_mem_cons_iff, or_left_comm, or_assoc,
      eq_comm]

/-- The columns of a type file are those of its declarations. -/
theorem mem_columnsOf_foldl_record (file : List Declaration) (s : ColumnSet)
    (table column : String) :
    column ∈ ((file.map Declaration.row).foldl record s).columnsOf table ↔
      (∃ d ∈ file, d.table.text = table ∧ column ∈ d.columns) ∨ column ∈ s.columnsOf table := by
  induction file generalizing s with
  | nil => simp
  | cons d file ih =>
    show column ∈ ((file.map Declaration.row).foldl record
      (s.insertMany d.table.text d.columns)).columnsOf table ↔ _
    rw [ih, ColumnSet.mem_columnsOf_insertMany, List.exists_mem_cons_iff, or_left_comm, or_assoc,
      eq_comm (a := table)]

/-! ## Extraction -/

/-- What is extracted from a file that holds declarations. -/
def extraction (name : String) (file : List Declaration) : Extraction RowTypes :=
  RowType.extract ⟨name, String.ofList (render file)⟩

/-- The extraction of a type file is made from the rows of its declarations. -/
theorem extraction_eq (name : String) (file : List Declaration) :
    extraction name file =
      { snapshot := ⟨(file.map Declaration.row).foldl record ∅⟩
        diagnostics := (file.map Declaration.row).filterMap (Row.diagnostic? name) } := by
  simp only [extraction, RowType.extract, String.toList_ofList, stripComments_render, rows_render]

/-- A type file is extracted exactly: nothing is reported, the tables are those it declares, and
each of them has the columns that its declarations give it. -/
theorem extract_render_exact (name : String) (file : List Declaration) :
    (extraction name file).diagnostics = [] ∧
    (∀ table, (extraction name file).snapshot.columns.containsTable table ↔
      ∃ d ∈ file, d.table.text = table) ∧
    ∀ table column, column ∈ (extraction name file).snapshot.columns.columnsOf table ↔
      ∃ d ∈ file, d.table.text = table ∧ column ∈ d.columns := by
  rw [extraction_eq]
  refine ⟨?_, fun table => ?_, fun table column => ?_⟩
  · refine List.filterMap_eq_nil_iff.2 fun r hr => ?_
    obtain ⟨d, -, rfl⟩ := List.mem_map.1 hr
    rfl
  · rw [containsTable_foldl_record]
    simp
  · rw [mem_columnsOf_foldl_record]
    simp

end SchemaDrift.TypeFile

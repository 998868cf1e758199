import SchemaDrift.Migration.Extract
import SchemaDrift.Proofs.Migration.Words
import SchemaDrift.Proofs.Scan.Nested

/-!
# Scripts

The statements that a migration is meant to be made of: definitions and alterations of tables, and
tables that are dropped, over plain names that are no reserved words. `render` writes a script, and
`Statement.columns`, `Statement.edges` and their neighbours say what it means.

Every part of a script is made of words (`Worded`), of which only those it was written with are
reserved, and has matched parentheses (`Nested`). Every clause is `Tight`: no blanks at its ends.
-/

namespace SchemaDrift.Script

open Text Scan Migration

/-! ## Names -/

/-- A plain name that is no reserved word, whatever the case of its letters. -/
structure Name extends PlainName where
  unreserved : chars.map Char.toLower ∉ reservedWords.map String.toList

/-! ## Statements -/

/-- A type of columns, with one or two numbers or none. -/
structure ColumnType where
  name : Name
  size : Option (Nat × Option Nat)

/-- The column that a reference refers to. -/
structure Target where
  table : Name
  column : Name

/-- A column with its type and the column it refers to, if it does. -/
structure Column where
  name : Name
  type : ColumnType
  target : Option Target

/-- A clause of a table definition. -/
inductive Item
  | column (d : Column)
  | primaryKey (column : Name)
  | foreignKey (column : Name) (target : Target)

/-- An action of a table alteration. -/
inductive Action
  | addColumn (d : Column)
  | dropColumn (column : Name)

/-- A statement. An alteration has at least one action. -/
inductive Statement
  | create (table : Name) (items : List Item)
  | alter (table : Name) (first : Action) (others : List Action)
  | drop (table : Name)

/-! ## Texts -/

/-- A number in decimal notation. -/
def digits (n : Nat) : List Char :=
  Nat.toDigits 10 n

/-- Texts with a comma and a space between them. -/
def commaSeparated (xs : List (List Char)) : List Char :=
  [',', ' '].intercalate xs

/-- How the type of a column is written. -/
def ColumnType.chars (t : ColumnType) : List Char :=
  match t.size with
  | none => t.name.chars
  | some (n, none) => t.name.chars ++ '(' :: (digits n ++ [')'])
  | some (n, some m) => t.name.chars ++ '(' :: (digits n ++ ',' :: ' ' :: (digits m ++ [')']))

/-- How a reference is written. -/
def Target.chars (r : Target) : List Char :=
  Keyword.references.written ++ ' ' :: (r.table.chars ++ '(' :: (r.column.chars ++ [')']))

/-- A column with its type. -/
def Column.declared (d : Column) : List Char :=
  d.name.chars ++ ' ' :: d.type.chars

/-- How a column is written, with its reference at the end. -/
def Column.chars (d : Column) : List Char :=
  d.declared ++ d.target.elim [] fun r => ' ' :: r.chars

/-- A key of a table, given its kind and its column. -/
def key (kind : Keyword) (column : Name) : List Char :=
  kind.written ++ ' ' :: (Keyword.key.written ++ ' ' :: '(' :: (column.chars ++ [')']))

/-- How a clause of a table definition is written. -/
def Item.chars : Item → List Char
  | column d => d.chars
  | primaryKey c => key .primary c
  | foreignKey c r => key .foreign c ++ ' ' :: r.chars

/-- How an action of an alteration is written. -/
def Action.chars : Action → List Char
  | addColumn d => Keyword.add.written ++ ' ' :: (Keyword.column.written ++ ' ' :: d.chars)
  | dropColumn c => Keyword.drop.written ++ ' ' :: (Keyword.column.written ++ ' ' :: c.chars)

/-- The verb of a statement and the table it is about. -/
def opening (verb : Keyword) (table : Name) : List Char :=
  verb.written ++ ' ' :: (Keyword.table.written ++ ' ' :: table.chars)

/-- How a statement is written, without the semicolon behind it. -/
def Statement.chars : Statement → List Char
  | create t items =>
    opening .create t ++ ' ' :: '(' :: (commaSeparated (items.map Item.chars) ++ [')'])
  | alter t a as => opening .alter t ++ ' ' :: commaSeparated ((a :: as).map Action.chars)
  | drop t => opening .drop t

/-- A statement with the semicolon and the line end behind it. -/
def Statement.line (s : Statement) : List Char :=
  s.chars ++ [';', '\n']

/-- The text of a script, one statement after another. -/
def render (script : List Statement) : List Char :=
  script.flatMap Statement.line

example : render [
    .create ⟨⟨"users".toList, by decide, by decide⟩, by decide⟩
      [.column ⟨⟨⟨"id".toList, by decide, by decide⟩, by decide⟩,
        ⟨⟨⟨"numeric".toList, by decide, by decide⟩, by decide⟩, some (10, some 2)⟩, none⟩],
    .drop ⟨⟨"users".toList, by decide, by decide⟩, by decide⟩] =
    "CREATE TABLE users (id numeric(10, 2));\nDROP TABLE users;\n".toList := by
  decide

/-! ## Meaning -/

/-- The column that a clause of a table definition declares. -/
def Item.column? : Item → Option Column
  | column d => some d
  | _ => none

/-- The column that an action adds. -/
def Action.column? : Action → Option Column
  | addColumn d => some d
  | dropColumn _ => none

/-- The tables that a statement creates or gives a column. -/
def Statement.tables : Statement → List String
  | create t _ => [t.text]
  | alter t a as => ((a :: as).filterMap Action.column?).map fun _ => t.text
  | drop _ => []

/-- The columns that a statement gives a table, each with its table. -/
def Statement.columns : Statement → List (String × String)
  | create t items => (items.filterMap Item.column?).map fun d => (t.text, d.name.text)
  | alter t a as => ((a :: as).filterMap Action.column?).map fun d => (t.text, d.name.text)
  | drop _ => []

/-- The foreign key of a column of a table that refers to another column. -/
def edge (table column : Name) (target : Target) : ForeignKey :=
  ⟨table.text, column.text, target.table.text, target.column.text⟩

/-- The foreign key of a column with a reference. -/
def Column.edge? (table : Name) (d : Column) : Option ForeignKey :=
  d.target.map (edge table d.name)

/-- The foreign key that a clause of a table definition declares. -/
def Item.edge? (table : Name) : Item → Option ForeignKey
  | column d => d.edge? table
  | primaryKey _ => none
  | foreignKey c r => some (edge table c r)

/-- The foreign keys that a statement declares. -/
def Statement.edges : Statement → List ForeignKey
  | create t items => items.filterMap (Item.edge? t)
  | alter t a as => ((a :: as).filterMap Action.column?).filterMap (Column.edge? t)
  | drop _ => []

/-- The diagnostic of an action, given the file and the table: columns are never dropped. -/
def Action.ignored? (file : String) (table : Name) : Action → Option Diagnostic
  | addColumn _ => none
  | dropColumn c => some ⟨file, .unsupportedStatement,
      "ALTER TABLE " ++ table.text ++ " " ++ abbreviate (dropColumn c).chars ++ ": ignored"⟩

/-- The diagnostics of the actions of a statement. -/
def Statement.ignoredActions (file : String) : Statement → List Diagnostic
  | alter t a as => (a :: as).filterMap (Action.ignored? file t)
  | _ => []

/-- The diagnostic of a statement that drops a table: tables are never dropped. -/
def Statement.ignoredDrop (file : String) : Statement → List Diagnostic
  | drop t => [⟨file, .unsupportedStatement,
      "DROP TABLE " ++ t.text ++ ": ignored, recorded columns are kept"⟩]
  | _ => []

/-! ## Words -/

/-- A plain word that is one of some keywords if it is reserved. -/
def Uses (ks : List Keyword) (w : List Char) : Prop :=
  (∀ c ∈ w, isPlain c) ∧ ∀ k : Keyword, w.map Phrase.foldCase = k.word.toList → k ∈ ks

/-- A word that uses some keywords at most uses more of them at most. -/
theorem Uses.mono {ks ks' : List Keyword} {w : List Char} (h : ks ⊆ ks') (hw : Uses ks w) :
    Uses ks' w :=
  ⟨hw.1, fun k he => h (hw.2 k he)⟩

/-- A word that uses other keywords avoids this one. -/
theorem Uses.avoids {ks : List Keyword} {k : Keyword} {w : List Char} (hw : Uses ks w)
    (hk : k ∉ ks) : Avoids k w :=
  ⟨hw.1, fun he => hk (hw.2 k he)⟩

/-- The empty word uses no keyword. -/
theorem uses_nil (ks : List Keyword) : Uses ks [] :=
  ⟨List.forall_mem_nil _, fun k he => absurd he.symm k.word_ne_nil⟩

/-- A keyword is a word that uses it. -/
theorem uses_written {ks : List Keyword} {k : Keyword} (h : k ∈ ks) : Uses ks k.written := by
  refine ⟨k.plain_written, fun k' he => ?_⟩
  rw [k.map_foldCase_written, String.toList_inj] at he
  have hk : k = k' := by
    cases k
    cases k'
    cases he
    rfl
  exact hk ▸ h

/-- A name uses no keyword. -/
theorem Name.uses (n : Name) (ks : List Keyword) : Uses ks n.chars := by
  refine ⟨n.plain, fun k he => ?_⟩
  rw [map_foldCase_of_plain n.plain] at he
  exact absurd (List.mem_map.2 ⟨k.word, k.reserved, he.symm⟩) n.unreserved

/-- The digits of a number are digits. -/
theorem isDigit_of_mem_digits {n : Nat} {c : Char} (h : c ∈ digits n) : c.isDigit :=
  Nat.isDigit_of_mem_toDigits (by decide) (by decide) h

/-- The digits of a number have no case. -/
theorem foldCase_of_mem_digits {n : Nat} {c : Char} (h : c ∈ digits n) :
    Phrase.foldCase c = c := by
  have hdigit := isDigit_of_mem_digits h
  rw [foldCase_of_isPlain (isPlain_of_isDigit hdigit), toLower_of_isDigit hdigit]

/-- A number is no reserved word: those have letters. -/
theorem digits_uses (n : Nat) (ks : List Keyword) : Uses ks (digits n) := by
  refine ⟨fun c hc => isPlain_of_isDigit (isDigit_of_mem_digits hc), fun k he => ?_⟩
  obtain ⟨c, hc⟩ := List.exists_mem_of_ne_nil _ k.word_ne_nil
  have halpha := isAlpha_of_isLower (k.isLower_word c hc)
  rw [← he, List.mem_map] at hc
  obtain ⟨d, hd, rfl⟩ := hc
  rw [foldCase_of_mem_digits hd, isAlpha_of_isDigit (isDigit_of_mem_digits hd)] at halpha
  cases halpha

/-- A text whose words use some keywords at most uses more of them at most. -/
theorem worded_mono {ks ks' : List Keyword} {s : List Char} (h : ks ⊆ ks')
    (hs : Worded (Uses ks) s) : Worded (Uses ks') s :=
  hs.mono fun _ => Uses.mono h

/-- The type of a column uses no keyword. -/
theorem ColumnType.worded (t : ColumnType) (ks : List Keyword) : Worded (Uses ks) t.chars := by
  have hend : Worded (Uses ks) [] := .word (uses_nil ks)
  unfold ColumnType.chars
  split
  · exact .word (t.name.uses ks)
  · exact .cons (t.name.uses ks) (.cons (digits_uses _ ks) hend rfl) rfl
  · have hsecond (m : Nat) : Worded (Uses ks) (digits m ++ [')']) :=
      .cons (digits_uses m ks) hend rfl
    exact .cons (t.name.uses ks) (.cons (digits_uses _ ks) (.cons (uses_nil ks) (hsecond _) rfl)
      rfl) rfl

/-- A reference uses its keyword only. -/
theorem Target.worded (r : Target) : Worded (Uses [.references]) r.chars :=
  .cons (uses_written (by simp)) (.cons (r.table.uses _) (.cons (r.column.uses _)
    (.word (uses_nil _)) rfl) rfl) rfl

/-- A column without its reference uses no keyword. -/
theorem Column.declared_worded (d : Column) (ks : List Keyword) : Worded (Uses ks) d.declared :=
  .cons (d.name.uses ks) (d.type.worded ks) rfl

/-- A column uses the keyword of references only. -/
theorem Column.worded (d : Column) : Worded (Uses [.references]) d.chars := by
  unfold Column.chars
  cases d.target with
  | none => simpa using d.declared_worded _
  | some r => exact (d.declared_worded _).append r.worded rfl

/-- A key constraint uses its keywords only. -/
theorem key_worded (kind : Keyword) (c : Name) : Worded (Uses [kind, .key]) (key kind c) :=
  .cons (uses_written (by simp)) (.cons (uses_written (by simp)) (.cons (uses_nil _)
    (.cons (c.uses _) (.word (uses_nil _)) rfl) rfl) rfl) rfl

/-- A clause of a table definition uses the keywords of constraints and references only. -/
theorem Item.worded (i : Item) : Worded (Uses [.primary, .foreign, .key, .references]) i.chars := by
  cases i with
  | column d => exact worded_mono (by simp) d.worded
  | primaryKey c => exact worded_mono (by simp) (key_worded .primary c)
  | foreignKey c r =>
    exact (worded_mono (by simp) (key_worded .foreign c)).append (worded_mono (by simp) r.worded)
      rfl

/-- An action that adds a column uses the keywords of that and of references only. -/
theorem Action.worded_addColumn (d : Column) :
    Worded (Uses [.add, .column, .references]) (Action.addColumn d).chars :=
  .cons (uses_written (by simp)) (.cons (uses_written (by simp))
    (worded_mono (by simp) d.worded) rfl) rfl

/-- An action that drops a column uses the keywords of that only. -/
theorem Action.worded_dropColumn (c : Name) :
    Worded (Uses [.drop, .column]) (Action.dropColumn c).chars :=
  .cons (uses_written (by simp)) (.cons (uses_written (by simp)) (.word (c.uses _)) rfl) rfl

/-- An action uses the keywords of actions and references only. -/
theorem Action.worded (a : Action) :
    Worded (Uses [.add, .drop, .column, .references]) a.chars := by
  cases a with
  | addColumn d => exact worded_mono (by simp) (Action.worded_addColumn d)
  | dropColumn c => exact worded_mono (by simp) (Action.worded_dropColumn c)

/-- The opening of a statement uses its verb and the keyword of tables only. -/
theorem opening_worded (verb : Keyword) (t : Name) :
    Worded (Uses [verb, .table]) (opening verb t) :=
  .cons (uses_written (by simp)) (.cons (uses_written (by simp)) (.word (t.uses _)) rfl) rfl

/-- Texts separated by commas: the first one, a comma, a space and the others. -/
theorem commaSeparated_cons_cons (x y : List Char) (xs : List (List Char)) :
    commaSeparated (x :: y :: xs) = x ++ ',' :: ' ' :: commaSeparated (y :: xs) := by
  simp [commaSeparated, List.intercalate_cons_cons]

/-- Texts separated by commas use the keywords that the texts use. -/
theorem worded_commaSeparated {ks : List Keyword} {xs : List (List Char)}
    (h : ∀ x ∈ xs, Worded (Uses ks) x) : Worded (Uses ks) (commaSeparated xs) := by
  induction xs with
  | nil => exact .word (uses_nil ks)
  | cons x xs ih =>
    rw [List.forall_mem_cons] at h
    cases xs with
    | nil => simpa [commaSeparated] using h.1
    | cons y xs =>
      rw [commaSeparated_cons_cons]
      exact h.1.append (.cons (uses_nil ks) (ih h.2) rfl) rfl

/-- The clauses of a table definition use the keywords of constraints and references only. -/
theorem Item.worded_commaSeparated (items : List Item) :
    Worded (Uses [.primary, .foreign, .key, .references])
      (commaSeparated (items.map Item.chars)) :=
  Script.worded_commaSeparated (by simpa using fun i _ => i.worded)

/-- The actions of an alteration use the keywords of actions and references only. -/
theorem Action.worded_commaSeparated (actions : List Action) :
    Worded (Uses [.add, .drop, .column, .references])
      (commaSeparated (actions.map Action.chars)) :=
  Script.worded_commaSeparated (by simpa using fun a _ => a.worded)

/-- A table definition uses the keywords of its opening and of its clauses only. -/
theorem Statement.worded_create (t : Name) (items : List Item) :
    Worded (Uses [.create, .table, .primary, .foreign, .key, .references])
      (create t items).chars := by
  have hopening := opening_worded .create t
  have hbody := Item.worded_commaSeparated items
  exact (worded_mono (by simp) hopening).append (.cons (uses_nil _)
    ((worded_mono (by simp) hbody).append (.word (uses_nil _)) rfl) rfl) rfl

/-- An alteration uses the keywords of its opening and of its actions only. -/
theorem Statement.worded_alter (t : Name) (a : Action) (as : List Action) :
    Worded (Uses [.alter, .table, .add, .drop, .column, .references]) (alter t a as).chars := by
  have hopening := opening_worded .alter t
  have hactions := Action.worded_commaSeparated (a :: as)
  exact (worded_mono (by simp) hopening).append (worded_mono (by simp) hactions) rfl

/-- A dropped table uses the keywords of its opening only. -/
theorem Statement.worded_drop (t : Name) : Worded (Uses [.drop, .table]) (drop t).chars :=
  opening_worded .drop t

/-! ## Parentheses -/

/-- A word of plain characters has neither parentheses nor separators. -/
theorem nested_of_plain {w : List Char} (h : ∀ c ∈ w, isPlain c) : Nested [',', ';'] w :=
  Nested.of_forall fun c hc =>
    ⟨isOrdinary_of_isPlain (h c hc), not_mem_of_isPlain (h c hc) (by decide)⟩

/-- A name has neither parentheses nor separators. -/
theorem Name.nested (n : Name) : Nested [',', ';'] n.chars :=
  nested_of_plain n.plain

/-- Digits have neither parentheses nor separators. -/
theorem digits_nested (n : Nat) : Nested [',', ';'] (digits n) :=
  nested_of_plain fun _ hc => isPlain_of_isDigit (isDigit_of_mem_digits hc)

/-- A text in parentheses, in which separators may stand. -/
theorem nested_group {s : List Char} (h : Nested [] s) : Nested [',', ';'] ('(' :: (s ++ [')'])) :=
  .group h .nil

/-- A word in front and a space keep a text nested. -/
theorem nested_word {w s : List Char} (hw : ∀ c ∈ w, isPlain c) (hs : Nested [',', ';'] s) :
    Nested [',', ';'] (w ++ ' ' :: s) :=
  (nested_of_plain hw).append (.symbol hs rfl (by simp))

/-- The parentheses in the type of a column match, and separators stand inside them only. -/
theorem ColumnType.nested (t : ColumnType) : Nested [',', ';'] t.chars := by
  unfold ColumnType.chars
  split
  · exact t.name.nested
  · exact t.name.nested.append (nested_group ((digits_nested _).mono (List.nil_subset _)))
  · rename_i n m _
    have hfirst : Nested [] (digits n) := (digits_nested n).mono (List.nil_subset _)
    have hsecond : Nested [] (digits m) := (digits_nested m).mono (List.nil_subset _)
    have hinner : Nested [] (digits n ++ ',' :: ' ' :: digits m) :=
      hfirst.append (.symbol (.symbol hsecond rfl (by simp)) rfl (by simp))
    simpa using t.name.nested.append (nested_group hinner)

/-- A name in parentheses. -/
theorem Name.nested_group (n : Name) : Nested [',', ';'] ('(' :: (n.chars ++ [')'])) :=
  Script.nested_group (n.nested.mono (List.nil_subset _))

/-- The parentheses of a reference match. -/
theorem Target.nested (r : Target) : Nested [',', ';'] r.chars :=
  nested_word (Keyword.plain_written _) (r.table.nested.append r.column.nested_group)

/-- The parentheses of a column without its reference match, and separators stand inside them
only. -/
theorem Column.declared_nested (d : Column) : Nested [',', ';'] d.declared :=
  nested_word d.name.plain d.type.nested

/-- The parentheses of a column match, and separators stand inside them only. -/
theorem Column.nested (d : Column) : Nested [',', ';'] d.chars := by
  unfold Column.chars
  cases d.target with
  | none => simpa using d.declared_nested
  | some r => exact d.declared_nested.append (.symbol r.nested rfl (by simp))

/-- The parentheses of a key constraint match. -/
theorem key_nested (kind : Keyword) (c : Name) : Nested [',', ';'] (key kind c) :=
  nested_word kind.plain_written (nested_word (Keyword.plain_written _) c.nested_group)

/-- The parentheses of a clause match, and separators stand inside them only. -/
theorem Item.nested (i : Item) : Nested [',', ';'] i.chars := by
  cases i with
  | column d => exact d.nested
  | primaryKey c => exact key_nested .primary c
  | foreignKey c r => exact (key_nested .foreign c).append (.symbol r.nested rfl (by simp))

/-- The parentheses of an action match, and separators stand inside them only. -/
theorem Action.nested (a : Action) : Nested [',', ';'] a.chars := by
  cases a with
  | addColumn d =>
    exact nested_word (Keyword.plain_written _) (nested_word (Keyword.plain_written _) d.nested)
  | dropColumn c =>
    exact nested_word (Keyword.plain_written _) (nested_word (Keyword.plain_written _) c.nested)

/-- Nested texts separated by commas are nested, with no semicolon outside parentheses. -/
theorem nested_commaSeparated {xs : List (List Char)} (h : ∀ x ∈ xs, Nested [',', ';'] x) :
    Nested [';'] (commaSeparated xs) := by
  induction xs with
  | nil => exact .nil
  | cons x xs ih =>
    rw [List.forall_mem_cons] at h
    have hx : Nested [';'] x := h.1.mono (by simp)
    cases xs with
    | nil => simpa [commaSeparated] using hx
    | cons y xs =>
      rw [commaSeparated_cons_cons]
      exact hx.append (.symbol (.symbol (ih h.2) rfl (by simp)) rfl (by simp))

/-- The opening of a statement has neither parentheses nor separators. -/
theorem opening_nested (verb : Keyword) (t : Name) : Nested [',', ';'] (opening verb t) :=
  nested_word verb.plain_written (nested_word (Keyword.plain_written _) t.nested)

/-- The parentheses of the clauses of a table definition match, with no semicolon outside them. -/
theorem Item.nested_commaSeparated (items : List Item) :
    Nested [';'] (commaSeparated (items.map Item.chars)) :=
  Script.nested_commaSeparated (by simpa using fun i _ => i.nested)

/-- The parentheses of the actions of an alteration match, with no semicolon outside them. -/
theorem Action.nested_commaSeparated (actions : List Action) :
    Nested [';'] (commaSeparated (actions.map Action.chars)) :=
  Script.nested_commaSeparated (by simpa using fun a _ => a.nested)

/-- The parentheses of a statement match, with no semicolon outside them. -/
theorem Statement.nested (s : Statement) : Nested [';'] s.chars := by
  have hopening (verb : Keyword) (t : Name) : Nested [';'] (opening verb t) :=
    (opening_nested verb t).mono (by simp)
  cases s with
  | create t items =>
    have hbody := (Item.nested_commaSeparated items).mono (List.nil_subset _)
    exact (hopening .create t).append (.symbol (.group hbody .nil) rfl (by simp))
  | alter t a as =>
    exact (hopening .alter t).append
      (.symbol (Action.nested_commaSeparated (a :: as)) rfl (by simp))
  | drop t => exact hopening .drop t

/-- A script holds no character that begins a literal or a comment. -/
theorem isInert_render (script : List Statement) : ∀ c ∈ render script, isInert c := by
  intro c hc
  obtain ⟨s, -, hc⟩ := List.mem_flatMap.1 hc
  rcases List.mem_append.1 hc with hc | hc
  · exact s.nested.isInert c hc
  · have hend : [';', '\n'].all isInert := by decide
    exact List.all_eq_true.1 hend c hc

/-- Texts separated by commas: the first one, and the others behind a comma and a space each. -/
theorem commaSeparated_cons (x : List Char) (xs : List (List Char)) :
    commaSeparated (x :: xs) = x ++ (xs.map (' ' :: ·)).flatMap (',' :: ·) := by
  induction xs generalizing x with
  | nil => simp [commaSeparated]
  | cons y xs ih =>
    rw [commaSeparated_cons_cons, ih]
    rfl

/-- A list of clauses falls apart at its commas. -/
theorem splitTopLevel_commaSeparated {x : List Char} {xs : List (List Char)}
    (h : ∀ y ∈ x :: xs, Nested [',', ';'] y) :
    splitTopLevel .sql ',' (commaSeparated (x :: xs)) = x :: xs.map (' ' :: ·) := by
  rw [List.forall_mem_cons] at h
  rw [commaSeparated_cons]
  refine splitTopLevel_joined (by decide) (h.1.mono (by simp)) fun y hy => ?_
  obtain ⟨z, hz, rfl⟩ := List.mem_map.1 hy
  exact .symbol ((h.2 z hz).mono (by simp)) rfl (by simp)

/-! ## Ends -/

/-- A name begins and ends with characters that are not blank. -/
theorem Name.tight (n : Name) : Tight n.chars :=
  tight_of_plain n.plain n.chars_ne_nil

/-- A parenthesis is not blank. -/
theorem tight_parenthesis : Tight [')'] :=
  ⟨⟨')', rfl, by decide⟩, ⟨')', rfl, by decide⟩⟩

/-- Two texts without blanks at their ends, with a space between them, have none at their ends
together. -/
theorem tight_word {w s : List Char} (hw : Tight w) (hs : Tight s) : Tight (w ++ ' ' :: s) :=
  hw.between [' '] hs

/-- A keyword holds no blank. -/
theorem tight_written (k : Keyword) : Tight k.written :=
  tight_of_plain k.plain_written k.written_ne_nil

/-- The type of a column has no blanks at its ends. -/
theorem ColumnType.tight (t : ColumnType) : Tight t.chars := by
  unfold ColumnType.chars
  split
  · exact t.name.tight
  · rename_i n _
    exact t.name.tight.between ('(' :: digits n) tight_parenthesis
  · rename_i n m _
    simpa using t.name.tight.between ('(' :: (digits n ++ ',' :: ' ' :: digits m)) tight_parenthesis

/-- A column without its reference has no blanks at its ends. -/
theorem Column.declared_tight (d : Column) : Tight d.declared :=
  tight_word d.name.tight d.type.tight

/-- A reference has no blanks at its ends. -/
theorem Target.tight (r : Target) : Tight r.chars := by
  have htarget := r.table.tight.between ('(' :: r.column.chars) tight_parenthesis
  exact tight_word (tight_written _) htarget

/-- A column has no blanks at its ends. -/
theorem Column.tight (d : Column) : Tight d.chars := by
  unfold Column.chars
  cases d.target with
  | none => simpa using d.declared_tight
  | some r => exact tight_word d.declared_tight r.tight

/-- A key constraint has no blanks at its ends. -/
theorem key_tight (kind : Keyword) (c : Name) : Tight (key kind c) := by
  have hcolumn := (tight_written .key).between (' ' :: '(' :: c.chars) tight_parenthesis
  exact tight_word (tight_written kind) hcolumn

/-- A clause of a table definition has no blanks at its ends. -/
theorem Item.tight (i : Item) : Tight i.chars := by
  cases i with
  | column d => exact d.tight
  | primaryKey c => exact key_tight .primary c
  | foreignKey c r => exact tight_word (key_tight .foreign c) r.tight

/-- An action has no blanks at its ends. -/
theorem Action.tight (a : Action) : Tight a.chars := by
  cases a with
  | addColumn d => exact tight_word (tight_written _) (tight_word (tight_written _) d.tight)
  | dropColumn c => exact tight_word (tight_written _) (tight_word (tight_written _) c.tight)

end SchemaDrift.Script

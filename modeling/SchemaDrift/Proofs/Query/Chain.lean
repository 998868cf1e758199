import SchemaDrift.Proofs.Scan.Literals
import SchemaDrift.Query.Extract

/-!
# Chains of calls

The queries that a module is meant to be made of: a call that selects a table, and behind it calls
that compare a column with a name (`Chain.Call.compare`) or that give several comparisons in one text
(`Chain.Call.anyOf`). `render` writes a module of such chains, part by part. What a module means is told by
its chains: the columns that each uses, and those it compares for equality.

Nothing in such a module is taken for a comment (`stripComments_render`).
-/

namespace SchemaDrift

open Scan Migration

namespace Chain

/-- A comparison inside a text: a column, a method and a value. -/
structure Comparison where
  column : PlainName
  method : PlainName
  value : PlainName

/-- A method that compares a column or orders by it. -/
inductive Method
  | eq
  | neq
  | gt
  | gte
  | lt
  | lte
  | order
  | filter
  | like
  | ilike
deriving DecidableEq

/-- The name of a method. -/
def Method.chars : Method → List Char
  | eq => "eq".toList
  | neq => "neq".toList
  | gt => "gt".toList
  | gte => "gte".toList
  | lt => "lt".toList
  | lte => "lte".toList
  | order => "order".toList
  | filter => "filter".toList
  | like => "like".toList
  | ilike => "ilike".toList

/-- The calls that are searched for have the names of the methods. -/
theorem mem_operators_iff {w : List Char} : w ∈ Query.operators ↔ ∃ m : Method, w = m.chars := by
  constructor
  · intro h
    simp only [Query.operators, List.mem_cons, List.not_mem_nil, or_false] at h
    rcases h with rfl | rfl | rfl | rfl | rfl | rfl | rfl | rfl | rfl | rfl
    exacts [⟨.eq, rfl⟩, ⟨.neq, rfl⟩, ⟨.gt, rfl⟩, ⟨.gte, rfl⟩, ⟨.lt, rfl⟩, ⟨.lte, rfl⟩,
      ⟨.order, rfl⟩, ⟨.filter, rfl⟩, ⟨.like, rfl⟩, ⟨.ilike, rfl⟩]
  · rintro ⟨m, rfl⟩
    cases m <;> decide

/-- The methods that compare are operators of the scan. -/
theorem Method.mem_operators (m : Method) : m.chars ∈ Query.operators :=
  mem_operators_iff.2 ⟨m, rfl⟩

/-- A call on the table that was selected. -/
inductive Call
  | compare (method : Method) (column value : PlainName)
  | anyOf (cs : List Comparison)

end Chain

/-- A query: a table and the calls on it. -/
structure Chain where
  table : PlainName
  calls : List Chain.Call

namespace Chain

/-! ## Texts -/

/-- A comparison as it stands inside a text. -/
def comparisonChars (c : Comparison) : List Char :=
  c.column.chars ++ '.' :: (c.method.chars ++ '.' :: c.value.chars)

/-- Comparisons with commas between them. -/
def comparisonsChars : List Comparison → List Char
  | [] => []
  | c :: cs => comparisonChars c ++ (cs.map comparisonChars).flatMap (',' :: ·)

/-- A text between quotes. -/
def quoted (s : List Char) : List Char :=
  '\'' :: (s ++ ['\''])

/-- A part of a rendered module. -/
inductive Part
  | client
  | select (table : PlainName)
  | call (c : Call)
  | finish

/-- The text of a call from its method on. -/
def callChars (method arguments : List Char) : List Char :=
  '.' :: (method ++ '(' :: (arguments ++ [')']))

/-- How a part of a chain is written. -/
def Part.chars : Part → List Char
  | client => ['s', 'b']
  | select table => callChars ['f', 'r', 'o', 'm'] (quoted table.chars)
  | call (.compare method column value) =>
    callChars method.chars (quoted column.chars ++ ',' :: ' ' :: value.chars)
  | call (.anyOf cs) => callChars ['o', 'r'] (quoted (comparisonsChars cs))
  | finish => [';', '\n']

/-- The parts of a query. -/
def parts (q : Chain) : List Part :=
  .client :: .select q.table :: (q.calls.map .call ++ [.finish])

/-- The text of a module, one query after another. -/
def render (qs : List Chain) : List Char :=
  (qs.flatMap parts).flatMap Part.chars

example : render [⟨⟨"users".toList, by decide, by decide⟩,
    [.compare .eq ⟨"org_id".toList, by decide, by decide⟩
      ⟨"org".toList, by decide, by decide⟩,
     .anyOf [⟨⟨"a".toList, by decide, by decide⟩, ⟨"gt".toList, by decide, by decide⟩,
       ⟨"x".toList, by decide, by decide⟩⟩]]⟩] =
    "sb.from('users').eq('org_id', org).or('a.gt.x');\n".toList := by
  decide

/-! ## Meaning -/

/-- The uses of columns by a call. -/
def usesOfCall : Call → List Query.ColumnUse
  | .compare method column value => [⟨column.text, method = .eq, some value.text⟩]
  | .anyOf cs => cs.map fun c => ⟨c.column.text, false, none⟩

/-- The uses of columns by a query. -/
def uses (q : Chain) : List Query.ColumnUse :=
  q.calls.flatMap usesOfCall

/-- The columns that a call mentions. -/
def columnsOfCall : Call → List String
  | .compare _ column _ => [column.text]
  | .anyOf cs => cs.map fun c => c.column.text

/-- The columns that a query mentions. -/
def columns (q : Chain) : List String :=
  q.calls.flatMap columnsOfCall

/-- The column that a call compares for equality, with the value. -/
def equality? : Call → Option (String × String)
  | .compare method column value =>
    if method = .eq then some (column.text, value.text) else none
  | .anyOf _ => none

/-- The columns that a query compares for equality, with the values. -/
def equalities (q : Chain) : List (String × String) :=
  q.calls.filterMap equality?

/-! ## Comments -/

/-- A quote behind characters that are neither quotes nor backslashes ends a literal. -/
theorem endsLiteral_append {q : Char} {s : List Char} (h : ∀ c ∈ s, c ≠ q ∧ c ≠ '\\') :
    endsLiteral q (s ++ [q]) := by
  induction s with
  | nil => exact beq_self_eq_true q
  | cons c s ih =>
    rw [List.forall_mem_cons] at h
    have hs := ih h.2
    cases s with
    | nil => simp [endsLiteral, h.1]
    | cons d s =>
      rw [List.cons_append] at hs
      simpa [endsLiteral, h.1] using hs

/-- A text that holds neither quotes nor backslashes is a literal once it stands between quotes. -/
theorem uncommented_quoted {s : List Char} (h : ∀ c ∈ s, c ≠ '\'' ∧ c ≠ '\\') :
    Uncommented (quoted s) where
  kept := by
    have hpieces : ∀ p ∈ [Piece.literal (quoted s)], p.isTerminated :=
      List.forall_mem_singleton.2 (endsLiteral_append h)
    have hcode := codePieces_flatMap_text hpieces []
    rw [List.flatMap_singleton, List.append_nil] at hcode
    have hcode : codePieces .typeScript (quoted s) = [.literal (quoted s)] := hcode
    refine Terminated.kept ?_ ?_
    · rw [Terminated, hcode]
      exact hpieces
    · rw [hcode]
      rfl
  completesNoMark := by
    rintro c ⟨⟩
    exact ⟨by decide, by decide⟩

/-- The characters of the texts between quotes: plain ones, dots and commas. -/
def isListed (c : Char) : Bool :=
  isPlain c || c == '.' || c == ','

/-- A plain character may stand in the text of several comparisons. -/
theorem isListed_of_isPlain {c : Char} (h : isPlain c) : isListed c := by
  simp [isListed, h]

/-- A comparison is written with plain characters and dots. -/
theorem mem_comparisonChars {c : Comparison} {d : Char} (h : d ∈ comparisonChars c) :
    isPlain d ∨ d = '.' := by
  simp only [comparisonChars, List.mem_append, List.mem_cons] at h
  obtain h | h | h | h | h := h
  · exact .inl (c.column.plain d h)
  · exact .inr h
  · exact .inl (c.method.plain d h)
  · exact .inr h
  · exact .inl (c.value.plain d h)

/-- The characters of a comparison may stand in the text of several. -/
theorem listed_comparison (c : Comparison) : ∀ d ∈ comparisonChars c, isListed d := by
  intro d hd
  obtain hplain | rfl := mem_comparisonChars hd
  · exact isListed_of_isPlain hplain
  · rfl

/-- The characters of several comparisons may stand in their text. -/
theorem listed_comparisons (cs : List Comparison) : ∀ d ∈ comparisonsChars cs, isListed d := by
  cases cs with
  | nil => exact List.forall_mem_nil _
  | cons c cs =>
    refine List.forall_mem_append.2 ⟨listed_comparison c, fun d hd => ?_⟩
    obtain ⟨x, hx, hd⟩ := List.mem_flatMap.1 hd
    obtain ⟨c', -, rfl⟩ := List.mem_map.1 hx
    obtain rfl | hd := List.mem_cons.1 hd
    · rfl
    · exact listed_comparison c' d hd

/-- A quoted text of several comparisons holds no comment. -/
theorem uncommented_quoted_of_listed {s : List Char} (h : ∀ c ∈ s, isListed c) :
    Uncommented (quoted s) :=
  uncommented_quoted fun c hc => ⟨ne_of_class (h c hc) rfl, ne_of_class (h c hc) rfl⟩

/-- A quoted name holds no comment. -/
theorem uncommented_quoted_name (n : PlainName) : Uncommented (quoted n.chars) :=
  uncommented_quoted_of_listed fun c hc => isListed_of_isPlain (n.plain c hc)

/-- An operator is made of plain characters. -/
theorem plain_of_mem_operators {w : List Char} (h : w ∈ Query.operators) : ∀ c ∈ w, isPlain c :=
  List.all_eq_true.1 (List.all_eq_true.1 (rfl : Query.operators.all (·.all isPlain) = true) w h)

/-- A call holds no comment if its arguments hold none. -/
theorem uncommented_call {method arguments : List Char} (hm : ∀ c ∈ method, isPlain c)
    (ha : Uncommented arguments) : Uncommented (callChars method arguments) := by
  have hdot : Uncommented ['.'] := .plain rfl
  have hopen : Uncommented ['('] := .plain rfl
  have hclose : Uncommented [')'] := .plain rfl
  exact hdot.append ((uncommented_of_plain hm).append (hopen.append (ha.append hclose)))

/-- A part of a chain holds no comment. -/
theorem uncommented_part (p : Part) : Uncommented p.chars := by
  cases p with
  | client => exact .plain rfl
  | select table => exact uncommented_call (List.all_eq_true.1 rfl) (uncommented_quoted_name table)
  | finish => exact .plain rfl
  | call c =>
    cases c with
    | compare method column value =>
      have hcomma : Uncommented [',', ' '] := .plain rfl
      exact uncommented_call (plain_of_mem_operators method.mem_operators)
        ((uncommented_quoted_name column).append (hcomma.append value.uncommented))
    | anyOf cs =>
      exact uncommented_call (List.all_eq_true.1 rfl)
        (uncommented_quoted_of_listed (listed_comparisons cs))

/-- Nothing in a module of queries is taken for a comment. -/
theorem stripComments_render (qs : List Chain) :
    stripComments .typeScript (render qs) = render qs := by
  have h : ∀ ps : List Part, Uncommented (ps.flatMap Part.chars) := by
    intro ps
    induction ps with
    | nil => exact .plain rfl
    | cons p ps ih => exact (uncommented_part p).append ih
  exact (h _).kept.stripComments_eq

end Chain

end SchemaDrift

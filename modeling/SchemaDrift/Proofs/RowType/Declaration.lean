import SchemaDrift.Proofs.Scan.Balanced
import SchemaDrift.Proofs.Scan.Literals
import SchemaDrift.Proofs.Text.Search
import SchemaDrift.RowType.Extract

/-!
# Declarations of rows

The declarations that a generated type file is meant to be made of: for each table an object type
with one member, the row, whose own members are the columns. `render` writes a file of declarations.
The type of a member is any text that a scan can pass over: its literals end, its brackets are
balanced, and nothing outside of them looks like a further member, a comment or a row (`TypeText`).

Nothing in such a file is taken for a comment (`stripComments_render`), and the braces of every row
enclose its body (`Declaration.enclosed?_body`).
-/

namespace SchemaDrift.TypeFile

open Text Scan Migration

/-! ## Parts of a declaration -/

/-- A plain name other than the one that rows are known by. -/
structure Name extends PlainName where
  notRow : chars ≠ ['R', 'o', 'w']

/-- Whether every colon of the code stands inside a bracket, in a text that begins inside a number
of them. -/
def colonsFrom : (depth : Nat) → List Piece → Bool
  | _, [] => true
  | depth, .code c :: ps => (c != ':' || depth != 0) && colonsFrom (depthAfter depth c) ps
  | depth, _ :: ps => colonsFrom depth ps

/-- The text of a type. Its literals are terminated, its brackets of each kind are balanced outside
literals, it has no colon outside literals and brackets and no comment outside literals, and the name
of rows does not occur in it. -/
structure TypeText where
  chars : List Char
  terminated : (codePieces .typeScript chars).all Piece.isTerminated
  parentheses : balancedFrom '(' ')' 0 (codePieces .typeScript chars)
  squares : balancedFrom '[' ']' 0 (codePieces .typeScript chars)
  braces : balancedFrom '{' '}' 0 (codePieces .typeScript chars)
  colons : colonsFrom 0 (codePieces .typeScript chars)
  uncommented : Scan.uncommented (codePieces .typeScript chars)
  rowless : ¬ ['R', 'o', 'w'] <:+: chars

/-- A member: its name and type, and whether it is marked as read-only or as optional. -/
structure Member where
  isReadonly : Bool
  name : Name
  isOptional : Bool
  type : TypeText

/-- What separates two members. -/
inductive Separator
  | semicolon
  | comma
  | lineEnd

/-- Members with separators between them; there may be one behind the last member. -/
inductive Members
  | nil
  | single (m : Member)
  | cons (m : Member) (sep : Separator) (ms : Members)

/-- The declaration of the row of a table. -/
structure Declaration where
  table : Name
  members : Members

/-! ## Texts -/

/-- The character of a separator. -/
def Separator.char : Separator → Char
  | semicolon => ';'
  | comma => ','
  | lineEnd => '\n'

/-- The marks behind the name of a member, and its type. -/
def Member.ending (m : Member) : List Char :=
  (if m.isOptional then ['?'] else []) ++ ':' :: ' ' :: m.type.chars

/-- How a member is written. -/
def Member.chars (m : Member) : List Char :=
  (if m.isReadonly then RowType.readonly ++ [' '] else []) ++ (m.name.chars ++ m.ending)

/-- How members are written, with separators between them. -/
def Members.chars : Members → List Char
  | nil => []
  | single m => m.chars
  | cons m sep ms => m.chars ++ sep.char :: ms.chars

/-- A declaration up to the brace that opens the row. -/
def Declaration.head (d : Declaration) : List Char :=
  d.table.chars ++ [':', ' ', '{', ' ', 'R', 'o', 'w', ':', ' ', '{']

/-- The text between the braces of the row. -/
def Declaration.body (d : Declaration) : List Char :=
  ' ' :: (d.members.chars ++ [' '])

/-- What stands behind the body of every row. -/
def tail : List Char :=
  ['}', ' ', '}', ';', '\n']

/-- A declaration with the line end behind it. -/
def Declaration.line (d : Declaration) : List Char :=
  d.head ++ (d.body ++ tail)

/-- The text of a type file, one declaration after another. -/
def render (file : List Declaration) : List Char :=
  file.flatMap Declaration.line

example : render [⟨⟨⟨"users".toList, by decide, by decide⟩, by decide⟩,
    .cons ⟨false, ⟨⟨"id".toList, by decide, by decide⟩, by decide⟩, false,
      ⟨"string | '\x7d'".toList, by decide, by decide, by decide, by decide, by decide, by decide,
        by decide⟩⟩ .semicolon
    (.single ⟨true, ⟨⟨"data".toList, by decide, by decide⟩, by decide⟩, true,
      ⟨"\x7b id: [a, b] \x7d".toList, by decide, by decide, by decide, by decide, by decide, by decide,
        by decide⟩⟩)⟩] =
    ("users: \x7b Row: \x7b id: string | '\x7d';readonly data?: \x7b id: [a, b] \x7d " ++
      "\x7d \x7d;\n").toList := by
  decide

/-! ## Meaning -/

/-- The members without their separators. -/
def Members.toList : Members → List Member
  | nil => []
  | single m => [m]
  | cons m _ ms => m :: ms.toList

/-- The columns that a declaration gives its table. -/
def Declaration.columns (d : Declaration) : List String :=
  d.members.toList.map fun m => m.name.text

/-! ## Parts of members -/

/-- What holds of the parts of members, and of texts put together from such, holds of members. -/
theorem Members.chars_induction (ms : Members) {P : List Char → Prop}
    (append : ∀ x y, P x → P y → P (x ++ y)) (nil : P [])
    (readonly : P (RowType.readonly ++ [' '])) (optional : P ['?'])
    (separator : ∀ sep : Separator, P [sep.char]) (name : ∀ n : Name, P n.chars)
    (type : ∀ t : TypeText, P (':' :: ' ' :: t.chars)) : P ms.chars := by
  have hmember : ∀ m : Member, P m.chars := by
    intro m
    have hreadonly : P (if m.isReadonly then RowType.readonly ++ [' '] else []) := by
      split
      · exact readonly
      · exact nil
    have hoptional : P (if m.isOptional then ['?'] else []) := by
      split
      · exact optional
      · exact nil
    have hending := append _ _ hoptional (type m.type)
    exact append _ _ hreadonly (append _ _ (name m.name) hending)
  induction ms with
  | nil => exact nil
  | single m => exact hmember m
  | cons m sep ms ih => exact append _ _ (hmember m) (append _ _ (separator sep) ih)

/-- Behind the name of a member stands a question mark or a colon. -/
theorem Member.head?_ending (m : Member) (rest : List Char) :
    ∀ c ∈ (m.ending ++ rest).head?, c = '?' ∨ c = ':' := by
  unfold Member.ending
  split
  · rintro c ⟨⟩
    exact .inl rfl
  · rintro c ⟨⟩
    exact .inr rfl

/-- A character that begins an identifier begins the name of a member. -/
theorem isMemberStart_of_isNameStart {c : Char} (h : isNameStart c) : RowType.isMemberStart c := by
  simp only [isNameStart] at h
  simp [RowType.isMemberStart, h]

/-! ## Literals and braces -/

/-- A text whose literals are terminated and whose braces are balanced. -/
structure Braced (x : List Char) : Prop where
  terminated : Terminated x
  braces : balancedFrom '{' '}' 0 (codePieces .typeScript x)

namespace Braced

variable {x y : List Char}

/-- Braced texts one after the other are braced. -/
theorem append (hx : Braced x) (hy : Braced y) : Braced (x ++ y) where
  terminated := hx.terminated.append hy.terminated
  braces := by
    rw [hx.terminated.codePieces_append]
    exact (balancedFrom_append hx.braces 0 _).trans hy.braces

/-- A text with neither quotes nor braces is braced. -/
theorem plain (hquote : x.any opensLiteral = false) (hopen : '{' ∉ x) (hclose : '}' ∉ x) :
    Braced x where
  terminated := terminated_plain hquote
  braces := by
    rw [codePieces_plain hquote]
    exact balancedFrom_codes hopen hclose

end Braced

/-- A name is braced. -/
theorem Name.braced (n : Name) : Braced n.chars :=
  .plain (n.any_eq_false fun _ => opensLiteral_of_isPlain) (n.not_mem rfl) (n.not_mem rfl)

/-- The literals in a type are closed. -/
theorem TypeText.isTerminated (t : TypeText) : Terminated t.chars :=
  List.all_eq_true.1 t.terminated

/-- The braces of a type match. -/
theorem TypeText.braced (t : TypeText) : Braced t.chars :=
  ⟨t.isTerminated, t.braces⟩

/-- A separator is braced. -/
theorem Separator.braced (sep : Separator) : Braced [sep.char] := by
  cases sep <;> exact .plain rfl (by decide) (by decide)

/-- The braces of members match. -/
theorem Members.braced (ms : Members) : Braced ms.chars := by
  have hnil : Braced [] := .plain rfl (by decide) (by decide)
  have hreadonly : Braced (RowType.readonly ++ [' ']) := .plain rfl (by decide) (by decide)
  have hoptional : Braced ['?'] := .plain rfl (by decide) (by decide)
  have hcolon : Braced [':', ' '] := .plain rfl (by decide) (by decide)
  exact ms.chars_induction (fun _ _ hx hy => hx.append hy) hnil hreadonly hoptional
    Separator.braced Name.braced fun t => hcolon.append t.braced

/-- The braces in the body of a declaration match. -/
theorem Declaration.braced_body (d : Declaration) : Braced d.body := by
  have hspace : Braced [' '] := .plain rfl (by decide) (by decide)
  exact hspace.append (d.members.braced.append hspace)

/-- The row of a declaration is what stands between its braces, whatever follows. -/
theorem Declaration.enclosed?_body (d : Declaration) (rest : List Char) :
    enclosed? .typeScript ('{' :: (d.body ++ (tail ++ rest))) = some d.body := by
  have hsplit : codePieces .typeScript (tail ++ rest) =
      .code '}' :: codePieces .typeScript (' ' :: '}' :: ';' :: '\n' :: rest) := rfl
  show enclosedIn '{' '}' 0 (codePieces .typeScript (d.body ++ (tail ++ rest))) = _
  rw [d.braced_body.terminated.codePieces_append, hsplit, ← Nat.zero_add 0,
    enclosedIn_balanced d.braced_body.braces, flatMap_text_codePieces]
  simp [enclosedIn]

/-! ## Comments -/

/-- The colon and the space before a type keep its first symbol from completing a mark. -/
theorem TypeText.uncommented_colon (t : TypeText) : Uncommented (':' :: ' ' :: t.chars) where
  kept := by
    have hcolon : Terminated [':', ' '] := terminated_plain rfl
    refine (hcolon.append t.isTerminated).kept ?_
    rw [hcolon.codePieces_append]
    exact t.uncommented
  completesNoMark := by
    rintro c ⟨⟩
    exact ⟨by decide, by decide⟩

/-- A separator begins no comment. -/
theorem Separator.uncommented (sep : Separator) : Uncommented [sep.char] := by
  cases sep <;> exact .plain rfl

/-- Members hold no comment. -/
theorem Members.uncommented (ms : Members) : Uncommented ms.chars :=
  ms.chars_induction (fun _ _ hx hy => hx.append hy) (.plain rfl) (.plain rfl) (.plain rfl)
    Separator.uncommented (fun n => n.uncommented) TypeText.uncommented_colon

/-- A declaration holds no comment. -/
theorem Declaration.uncommented (d : Declaration) : Uncommented d.line := by
  have hhead : Uncommented d.head := d.table.uncommented.append (.plain rfl)
  have hspace : Uncommented [' '] := .plain rfl
  have hbody : Uncommented d.body := hspace.append (d.members.uncommented.append hspace)
  exact hhead.append (hbody.append (.plain rfl))

/-- Nothing in a type file is taken for a comment. -/
theorem stripComments_render (file : List Declaration) :
    stripComments .typeScript (render file) = render file := by
  have h : Uncommented (render file) := by
    induction file with
    | nil => exact .plain rfl
    | cons d file ih => exact d.uncommented.append ih
  exact h.kept.stripComments_eq

end SchemaDrift.TypeFile

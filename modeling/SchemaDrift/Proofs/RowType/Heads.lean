import SchemaDrift.Proofs.RowType.Declaration

/-!
# The heads of rendered rows

A reading of the head of a row ends in a brace that the name of rows follows (`RowMark`). In a type
file that is only the first brace of a declaration (`exists_of_rowMark`): a brace inside a type has
a closing brace or a quote behind it, which the name of rows would have to stand before, and the
first member of a row has another name. So the head is read at the start of each declaration
(`best?_rowHead`) and nowhere inside its body (`read_rowHead_eq_nil`).
-/

namespace SchemaDrift.TypeFile

open Text Scan Migration RowType

variable {x y s u rest : List Char} {ps : List Piece}

/-! ## Braces before the name of rows -/

/-- A brace, the name of rows and a colon, with blanks between them. -/
def RowMark (s : List Char) : Prop :=
  ∃ a b rest, (∀ c ∈ a, isBlank c) ∧ (∀ c ∈ b, isBlank c) ∧
    s = '{' :: (a ++ (['R', 'o', 'w'] ++ (b ++ ':' :: rest)))

/-- A mark of rows begins with a brace. -/
theorem RowMark.exists_cons (h : RowMark u) : ∃ v, u = '{' :: v := by
  obtain ⟨a, b, rest, -, -, rfl⟩ := h
  exact ⟨_, rfl⟩

/-- A text with no brace that the name of rows follows, whatever stands behind the text. -/
def RowFree (x : List Char) : Prop :=
  ∀ y v rest, x = y ++ '{' :: v → ¬RowMark ('{' :: (v ++ rest))

namespace RowFree

/-- A text without an opening brace marks no rows. -/
theorem of_not_mem (h : '{' ∉ x) : RowFree x := by
  rintro y v rest rfl
  exact absurd (List.mem_append_right y List.mem_cons_self) h

/-- Texts that mark no rows mark none together. -/
theorem append (hx : RowFree x) (hy : RowFree y) : RowFree (x ++ y) := by
  intro z v rest heq
  obtain ⟨w, rfl, hw⟩ | ⟨w, rfl, hw⟩ := List.append_eq_append_iff.1 heq
  · exact hy w v rest hw
  · cases w with
    | nil => exact hy [] v rest hw.symm
    | cons c w =>
      obtain ⟨rfl, hv⟩ := List.cons_eq_cons.1 hw
      rw [show v = w ++ y from hv, List.append_assoc]
      exact hx z w (y ++ rest) rfl

/-- A brace before a text that marks no rows marks none if the name of rows does not follow it. -/
theorem cons (hx : RowFree x) (h : ∀ rest, ¬RowMark ('{' :: (x ++ rest))) :
    RowFree ('{' :: x) := by
  intro y v rest heq
  cases y with
  | nil =>
    obtain ⟨-, rfl⟩ := List.cons_eq_cons.1 heq
    exact h rest
  | cons c y => exact hx y v rest (List.cons_eq_cons.1 heq).2

/-- The end of a text that marks no rows marks none. -/
theorem suffix (hx : RowFree x) (h : y <:+ x) : RowFree y := by
  obtain ⟨z, rfl⟩ := h
  rintro w v rest rfl
  exact hx (z ++ w) v rest (List.append_assoc z w _).symm

/-- A mark that stands somewhere behind the start of a free text stands behind its end. -/
theorem exists_behind (hx : RowFree x) (hu : RowMark u) (h : y ++ u = x ++ s) :
    ∃ z, y = x ++ z ∧ z ++ u = s := by
  obtain ⟨z, rfl, hz⟩ | ⟨z, rfl, hz⟩ := List.append_eq_append_iff.1 h
  · obtain ⟨v, rfl⟩ := hu.exists_cons
    cases z with
    | nil => exact ⟨[], by simp, hz⟩
    | cons c z =>
      obtain ⟨rfl, rfl⟩ := List.cons_eq_cons.1 hz
      exact absurd hu (hx y z s rfl)
  · exact ⟨z, rfl, hz.symm⟩

end RowFree

/-! ## Braces inside a type -/

/-- Where a brace is open in balanced pieces, one closes it. -/
theorem closer_mem_of_balancedFrom {depth : Nat} (h : balancedFrom '{' '}' (depth + 1) ps) :
    '}' ∈ ps.flatMap Piece.text := by
  induction ps generalizing depth with
  | nil => cases h
  | cons p ps ih =>
    rw [List.flatMap_cons, List.mem_append]
    cases p with
    | literal l => exact .inr (ih h)
    | comment l => exact .inr (ih h)
    | code c =>
      by_cases hclose : c = '}'
      · exact .inl (List.mem_singleton.2 hclose.symm)
      · by_cases hopen : c = '{'
        · subst hopen
          exact .inr (ih h)
        · simp only [balancedFrom, hopen, hclose, if_false] at h
          exact .inr (ih h)

/-- A literal that ends does so with its quote. -/
theorem getLast?_of_endsLiteral {q : Char} (h : endsLiteral q s) : s.getLast? = some q := by
  fun_induction endsLiteral q s with
  | case1 => cases h
  | case2 c => rw [beq_iff_eq.1 h]; rfl
  | case3 e s ih =>
    have hs := ih h
    cases s with
    | nil => cases h
    | cons d s => simpa using hs
  | case4 c e s hc ih => simpa using ih (Bool.and_eq_true _ _ ▸ h).2

/-- Behind a brace that opens inside a type there is a brace that closes, or a quote if the brace
stands in a literal. -/
theorem exists_mem_behind_brace {depth : Nat} {v : List Char} (hps : ∀ p ∈ ps, p.isTerminated)
    (hbraces : balancedFrom '{' '}' depth ps) (heq : ps.flatMap Piece.text = y ++ '{' :: v) :
    ∃ m ∈ v, m = '}' ∨ opensLiteral m := by
  induction ps generalizing depth y with
  | nil => cases y <;> cases heq
  | cons p ps ih =>
    rw [List.forall_mem_cons] at hps
    rw [List.flatMap_cons] at heq
    obtain ⟨c, rfl, -⟩ | ⟨q, l, rfl, hq, hl⟩ := Piece.isTerminated_cases hps.1
    · cases y with
      | nil =>
        obtain ⟨rfl, rfl⟩ := List.cons_eq_cons.1 heq
        exact ⟨'}', closer_mem_of_balancedFrom hbraces, .inl rfl⟩
      | cons d y =>
        obtain ⟨rfl, hrest⟩ := List.cons_eq_cons.1 heq
        obtain ⟨depth', hbraces'⟩ : ∃ depth', balancedFrom '{' '}' depth' ps := by
          simp only [balancedFrom] at hbraces
          split at hbraces
          · exact ⟨_, hbraces⟩
          · split at hbraces
            · split at hbraces
              · cases hbraces
              · exact ⟨_, hbraces⟩
            · exact ⟨_, hbraces⟩
        exact ih hps.2 hbraces' hrest
    · obtain ⟨z, rfl, hz⟩ | ⟨z, hlit, hz⟩ := List.append_eq_append_iff.1 heq
      · exact ih hps.2 hbraces hz
      · have hlast : (y ++ z).getLast? = some q := by
          rw [← hlit, Piece.text, List.getLast?_cons, getLast?_of_endsLiteral hl]
          rfl
        cases z with
        | nil =>
          rw [List.nil_append] at hz
          exact ih (y := []) hps.2 hbraces hz.symm
        | cons d z =>
          obtain ⟨rfl, rfl⟩ := List.cons_eq_cons.1 hz
          cases z with
          | nil =>
            rw [List.getLast?_append] at hlast
            obtain rfl : '{' = q := Option.some.inj hlast
            cases hq
          | cons e z =>
            refine ⟨q, List.mem_append_left _ (List.mem_of_getLast? ?_), .inr hq⟩
            rw [← hlast, List.getLast?_append, List.getLast?_cons_cons]
            simp [List.getLast?_cons]

/-- A brace inside a type is not followed by the name of rows, which does not occur in the type. -/
theorem TypeText.rowFree (t : TypeText) : RowFree t.chars := by
  intro y v rest heq hmark
  have htext := flatMap_text_codePieces (d := .typeScript) t.chars
  obtain ⟨m, hm, hstop⟩ := exists_mem_behind_brace t.isTerminated t.braces (htext.trans heq)
  obtain ⟨v₁, v₂, rfl⟩ := List.append_of_mem hm
  obtain ⟨a, b, rest', ha, -, hmark⟩ := hmark
  have hv : (a ++ ['R', 'o', 'w']) ++ (b ++ ':' :: rest') = v₁ ++ m :: (v₂ ++ rest) := by
    simpa using (List.cons_eq_cons.1 hmark).2.symm
  have hnot : m ∉ a ++ ['R', 'o', 'w'] := by
    intro hmem
    obtain hmem | hmem := List.mem_append.1 hmem
    · have hblank := ha m hmem
      simp only [opensLiteral, Bool.or_eq_true, beq_iff_eq] at hstop
      obtain rfl | (rfl | rfl) | rfl := hstop <;> exact absurd hblank (by decide)
    · simp only [List.mem_cons, List.not_mem_nil, or_false] at hmem
      obtain rfl | rfl | rfl := hmem <;> obtain h | h := hstop <;> cases h
  obtain ⟨z, rfl, -⟩ | ⟨z, hz, hz'⟩ := List.append_eq_append_iff.1 hv
  · refine t.rowless ⟨y ++ '{' :: a, z ++ m :: v₂, ?_⟩
    rw [heq]
    simp
  · cases z with
    | nil =>
      refine t.rowless ⟨y ++ '{' :: a, m :: v₂, ?_⟩
      rw [List.append_nil] at hz
      rw [heq, ← hz]
      simp
    | cons d z =>
      obtain ⟨rfl, -⟩ := List.cons_eq_cons.1 hz'
      exact hnot (hz ▸ List.mem_append_right _ List.mem_cons_self)

/-! ## Braces of a declaration -/

/-- A separator marks no rows. -/
theorem Separator.rowFree (sep : Separator) : RowFree [sep.char] := by
  cases sep <;> exact .of_not_mem (by decide)

/-- Members mark no rows. -/
theorem Members.rowFree (ms : Members) : RowFree ms.chars := by
  have hnil : RowFree [] := .of_not_mem (by decide)
  have hreadonly : RowFree (readonly ++ [' ']) := .of_not_mem (by decide)
  have hoptional : RowFree ['?'] := .of_not_mem (by decide)
  have hcolon : RowFree [':', ' '] := .of_not_mem (by decide)
  exact ms.chars_induction (fun _ _ hx hy => hx.append hy) hnil hreadonly hoptional
    Separator.rowFree (fun n => .of_not_mem (n.not_mem rfl)) fun t => hcolon.append t.rowFree

/-- The body of a declaration marks no rows. -/
theorem Declaration.rowFree_body (d : Declaration) : RowFree (d.body ++ tail) := by
  have hspace : RowFree [' '] := .of_not_mem (by decide)
  exact (hspace.append (d.members.rowFree.append hspace)).append (.of_not_mem (by decide))

/-- The name that a text begins with ends where a symbol that is not plain follows. -/
theorem Name.eq_of_append {n : Name} {w z : List Char} (hw : ∀ c ∈ w, isPlain c)
    (hs : ∀ c ∈ s.head?, isPlain c = false) (hz : ∀ c ∈ z.head?, isPlain c = false)
    (h : n.chars ++ s = w ++ z) : n.chars = w := by
  rw [← takeWhile_append_of_stop n.plain hs, h, takeWhile_append_of_stop hw hz]

/-- A member does not begin like a row: its name is another one. -/
theorem Member.chars_append_ne (m : Member) {b : List Char} (hb : ∀ c ∈ b, isBlank c)
    (s rest : List Char) : m.chars ++ s ≠ ['R', 'o', 'w'] ++ (b ++ ':' :: rest) := by
  intro heq
  rw [Member.chars] at heq
  split at heq
  · cases heq
  · rw [List.nil_append, List.append_assoc] at heq
    have hending : ∀ c ∈ (m.ending ++ s).head?, isPlain c = false := by
      intro c hc
      obtain rfl | rfl := m.head?_ending s c hc <;> rfl
    have hstop : ∀ c ∈ (b ++ ':' :: rest).head?, isPlain c = false := by
      cases b with
      | nil =>
        rintro c ⟨⟩
        rfl
      | cons d b =>
        rintro c ⟨⟩
        by_contra hplain
        have hblank := hb d List.mem_cons_self
        rw [isBlank_of_isPlain (by simpa using hplain)] at hblank
        cases hblank
    exact m.name.notRow (Name.eq_of_append (List.all_eq_true.1 rfl) hending hstop heq)

/-- A member does not begin with a blank. -/
theorem Member.isBlank_head (m : Member) (s : List Char) :
    ∀ c ∈ (m.chars ++ s).head?, isBlank c = false := by
  rw [Member.chars]
  split
  · rintro c ⟨⟩
    decide
  · obtain ⟨d, w, hname, -, hplain, -⟩ := m.name.exists_cons
    rw [hname]
    rintro c ⟨⟩
    exact isBlank_of_isPlain hplain

/-- The brace that opens a row is not the mark of another row. -/
theorem Declaration.not_rowMark_body (d : Declaration) (rest : List Char) :
    ¬RowMark ('{' :: (d.body ++ tail ++ rest)) := by
  rintro ⟨a, b, rest', ha, hb, heq⟩
  have hbody := (List.cons_eq_cons.1 heq).2
  -- Without the blanks, the body begins with its first member and the mark with the name of rows.
  have hdrop := congrArg (List.dropWhile isBlank) hbody
  rw [dropWhile_append_of_stop ha (by rintro c ⟨⟩; decide), Declaration.body] at hdrop
  have hspace : ∀ s, (' ' :: s).dropWhile isBlank = s.dropWhile isBlank :=
    fun s => List.dropWhile_cons_of_pos isBlank_space
  have hmember : ∀ (m : Member) (s : List Char),
      (m.chars ++ s).dropWhile isBlank ≠ ['R', 'o', 'w'] ++ (b ++ ':' :: rest') := by
    intro m s h
    have hkeep := dropWhile_append_of_stop (w := []) (List.forall_mem_nil _) (m.isBlank_head s)
    rw [List.nil_append] at hkeep
    rw [hkeep] at h
    exact m.chars_append_ne hb s rest' h
  cases hms : d.members with
  | nil =>
    rw [hms] at hdrop
    have hclose : isBlank '}' = false := by decide
    simp [Members.chars, tail, hspace, hclose] at hdrop
  | single m =>
    rw [hms] at hdrop
    simp only [Members.chars, List.cons_append, List.append_assoc, hspace] at hdrop
    exact hmember m _ hdrop
  | cons m sep ms =>
    rw [hms] at hdrop
    simp only [Members.chars, List.cons_append, List.append_assoc, hspace] at hdrop
    exact hmember m _ hdrop

/-- In a type file only the first brace of a declaration has the name of rows behind it. -/
theorem exists_of_rowMark (file : List Declaration) (hu : RowMark u) (h : y ++ u = render file) :
    ∃ (z : List Char) (n : Name), y = z ++ (n.chars ++ [':', ' ']) := by
  induction file generalizing y with
  | nil =>
    obtain ⟨v, rfl⟩ := hu.exists_cons
    cases y <;> cases h
  | cons d file ih =>
    have hline : render (d :: file) = (d.table.chars ++ [':', ' ']) ++
        '{' :: ((" Row: ".toList ++ '{' :: (d.body ++ tail)) ++ render file) := by
      simp [render, Declaration.line, Declaration.head]
    have hname : RowFree (d.table.chars ++ [':', ' ']) :=
      .append (.of_not_mem (d.table.not_mem rfl)) (.of_not_mem (by decide))
    have hremainder : RowFree (" Row: ".toList ++ '{' :: (d.body ++ tail)) :=
      .append (.of_not_mem (by decide)) (d.rowFree_body.cons d.not_rowMark_body)
    rw [hline] at h
    obtain ⟨z, rfl, hz⟩ := hname.exists_behind hu h
    cases z with
    | nil => exact ⟨[], d.table, List.append_nil _⟩
    | cons c z =>
      obtain ⟨w, rfl, hw⟩ := hremainder.exists_behind hu (List.cons_eq_cons.1 hz).2
      obtain ⟨z', n, rfl⟩ := ih hw
      refine ⟨d.table.chars ++ [':', ' '] ++ c :: (" Row: ".toList ++ '{' :: (d.body ++ tail) ++ z'),
        n, ?_⟩
      simp only [List.append_assoc, List.cons_append]

/-! ## Readings of the head of a row -/

/-- What is read as a mark is blanks and the mark. -/
theorem eq_append_of_mem_read_mark {c : Char} {r : Unit × List Char} (h : r ∈ (mark c).read s) :
    ∃ b, (∀ d ∈ b, isBlank d) ∧ s = b ++ c :: r.2 := by
  obtain ⟨a, ha, h⟩ := mem_read_bind.1 h
  obtain ⟨b, hb, hs⟩ := eq_append_of_mem_read_blanks ha
  rw [eq_cons_of_mem_read_char h] at hs
  exact ⟨b, hb, hs⟩

/-- How the table of a row is spelled: by characters of names, or up to a quote. -/
def Spelling (w : List Char) : Prop :=
  (∀ c ∈ w, isNameChar c) ∨ ∃ q ∈ w.getLast?, opensLiteral q

/-- What is read as the quoted name of a table is spelled like one. -/
theorem spelling_of_mem_read_between {q : Char} (hq : opensLiteral q)
    {r : List Char × List Char} (h : r ∈ (between q).read s) :
    ∃ w, Spelling w ∧ s = w ++ r.2 := by
  obtain ⟨a, ha, h⟩ := mem_read_bind.1 h
  obtain ⟨b, hb, h⟩ := mem_read_bind.1 h
  obtain ⟨e, he, h⟩ := mem_read_bind.1 h
  obtain rfl := mem_read_pure.1 h
  obtain ⟨-, hs⟩ := eq_append_of_mem_read_run1 hb
  refine ⟨q :: (b.1 ++ [q]), .inr ⟨q, by simp [List.getLast?_cons], hq⟩, ?_⟩
  rw [eq_cons_of_mem_read_char ha, hs, eq_cons_of_mem_read_char he]
  simp

/-- A character that begins the name of a member may stand in an identifier. -/
theorem isNameChar_of_isMemberStart {c : Char} (h : isMemberStart c) : isNameChar c := by
  simp only [isMemberStart, Bool.or_eq_true, beq_iff_eq] at h
  obtain (h | rfl) | rfl := h
  · exact isNameChar_of_isPlain (isPlain_of_isAlpha h)
  · exact isNameChar_of_isPlain rfl
  · simp [isNameChar]

/-- What is read as the plain name of a table is spelled like one. -/
theorem spelling_of_mem_read_plainTable {before : Option Char} {r : List Char × List Char}
    (h : r ∈ (plainTable before).read s) : ∃ w, Spelling w ∧ s = w ++ r.2 := by
  obtain ⟨a, ha, h⟩ := mem_read_bind.1 h
  obtain ⟨b, hb, h⟩ := mem_read_bind.1 h
  obtain ⟨e, he, h⟩ := mem_read_bind.1 h
  obtain rfl := mem_read_pure.1 h
  have hsame : a.2 = s := by
    simp only [Phrase.boundary] at ha
    split at ha
    · rw [List.mem_singleton.1 ha]
    · cases ha
  obtain ⟨hstart, hb⟩ := eq_cons_of_mem_read_oneOf hb
  obtain ⟨hchars, he⟩ := eq_append_of_mem_read_run he
  refine ⟨b.1 :: e.1, .inl ?_, ?_⟩
  · exact List.forall_mem_cons.2 ⟨isNameChar_of_isMemberStart hstart, hchars⟩
  · rw [← hsame, hb, he, List.cons_append]

/-- The parts of a reading of the head of a row. -/
theorem parts_of_mem_read_rowHead {before : Option Char} {r : List Char × List Char}
    (h : r ∈ (rowHead before).read s) :
    ∃ w a b e f g, Spelling w ∧ (∀ c ∈ a, isBlank c) ∧ (∀ c ∈ b, isBlank c) ∧
      (∀ c ∈ e, isBlank c) ∧ (∀ c ∈ f, isBlank c) ∧
      s = w ++ (a ++ ':' :: (b ++ '{' :: (e ++ (['R', 'o', 'w'] ++
        (f ++ ':' :: (g ++ '{' :: r.2)))))) := by
  obtain ⟨table, htable, h⟩ := mem_read_bind.1 h
  obtain ⟨colon, hcolon, h⟩ := mem_read_bind.1 h
  obtain ⟨brace, hbrace, h⟩ := mem_read_bind.1 h
  obtain ⟨gap, hgap, h⟩ := mem_read_bind.1 h
  obtain ⟨row, hrow, h⟩ := mem_read_bind.1 h
  obtain ⟨colon', hcolon', h⟩ := mem_read_bind.1 h
  obtain ⟨brace', hbrace', h⟩ := mem_read_bind.1 h
  obtain rfl := mem_read_pure.1 h
  obtain ⟨w, hw, hs⟩ : ∃ w, Spelling w ∧ s = w ++ table.2 := by
    obtain htable | htable := mem_read_either.1 htable
    · exact spelling_of_mem_read_between rfl htable
    · obtain htable | htable := mem_read_either.1 htable
      · exact spelling_of_mem_read_between rfl htable
      · exact spelling_of_mem_read_plainTable htable
  obtain ⟨a, ha, hs₁⟩ := eq_append_of_mem_read_mark hcolon
  obtain ⟨b, hb, hs₂⟩ := eq_append_of_mem_read_mark hbrace
  obtain ⟨e, he, hs₃⟩ := eq_append_of_mem_read_blanks hgap
  obtain ⟨f, hf, hs₄⟩ := eq_append_of_mem_read_mark hcolon'
  obtain ⟨g, -, hs₅⟩ := eq_append_of_mem_read_mark hbrace'
  refine ⟨w, a, b, e, f, g, hw, ha, hb, he, hf, ?_⟩
  rw [hs, hs₁, hs₂, hs₃, eq_append_of_mem_read_exactly hrow, hs₄, hs₅]

/-- A reading of the head of a row begins with a table, a colon and the mark of the row. -/
theorem exists_of_mem_read_rowHead {before : Option Char} {r : List Char × List Char}
    (h : r ∈ (rowHead before).read s) :
    ∃ w a b u, Spelling w ∧ (∀ c ∈ a, isBlank c) ∧ (∀ c ∈ b, isBlank c) ∧ RowMark u ∧
      s = w ++ (a ++ ':' :: (b ++ u)) := by
  obtain ⟨w, a, b, e, f, g, hw, ha, hb, he, hf, hs⟩ := parts_of_mem_read_rowHead h
  exact ⟨w, a, b, _, hw, ha, hb, ⟨e, f, _, he, hf, rfl⟩, hs⟩

/-- Two texts that agree have the same text before their last occurrence of a character. -/
theorem eq_of_append_cons {c : Char} {a b : List Char} (ha : c ∉ a) (hb : c ∉ b)
    (h : x ++ c :: a = y ++ c :: b) : x = y := by
  obtain ⟨z, rfl, hz⟩ | ⟨z, rfl, hz⟩ := List.append_eq_append_iff.1 h
  · cases z with
    | nil => exact (List.append_nil x).symm
    | cons d z =>
      refine absurd ?_ ha
      rw [(List.cons_eq_cons.1 hz).2]
      exact List.mem_append_right z List.mem_cons_self
  · cases z with
    | nil => exact List.append_nil y
    | cons d z =>
      refine absurd ?_ hb
      rw [(List.cons_eq_cons.1 hz).2]
      exact List.mem_append_right z List.mem_cons_self

/-- The table of a row is never spelled by a text that goes on with a name behind the end of a
line. -/
theorem not_spelling (n : Name) (hx : '\n' ∈ x) : ¬Spelling (x ++ n.chars) := by
  rintro (hname | ⟨q, hlast, hq⟩)
  · have hline : isNameChar '\n' = false := isNameChar_of_isPunctuation (by decide)
    rw [hname '\n' (List.mem_append_left _ hx)] at hline
    cases hline
  · rw [List.getLast?_append, List.getLast?_eq_some_getLast n.chars_ne_nil] at hlast
    obtain rfl := Option.some.inj hlast
    rw [opensLiteral_of_isPlain (n.plain _ (List.getLast_mem n.chars_ne_nil))] at hq
    cases hq

/-- Inside a declaration, behind its head, no head of a row is read. -/
theorem read_rowHead_eq_nil (d : Declaration) (file : List Declaration) (hne : x ≠ [])
    (hx : x <:+ d.body ++ tail) (before : Option Char) :
    (rowHead before).read (x ++ render file) = [] := by
  refine List.eq_nil_iff_forall_not_mem.2 fun r hr => ?_
  obtain ⟨w, a, b, u, hw, ha, hb, hu, heq⟩ := exists_of_mem_read_rowHead hr
  have hassoc : (w ++ (a ++ ':' :: b)) ++ u = x ++ render file := by
    rw [heq]
    simp
  obtain ⟨z, hz, hfile⟩ := (d.rowFree_body.suffix hx).exists_behind hu hassoc
  obtain ⟨z', n, rfl⟩ := exists_of_rowMark file hu hfile
  have hblank : ∀ {v : List Char}, (∀ c ∈ v, isBlank c) → ':' ∉ v := by
    intro v hv hmem
    exact absurd (hv ':' hmem) (by decide)
  have hspelled : w ++ a = x ++ z' ++ n.chars := by
    refine eq_of_append_cons (hblank hb) (b := [' ']) (by decide) ?_
    simpa using hz
  obtain rfl : a = [] := by
    by_contra hane
    have hlast := congrArg List.getLast? hspelled
    rw [List.getLast?_append, List.getLast?_append, List.getLast?_eq_some_getLast hane,
      List.getLast?_eq_some_getLast n.chars_ne_nil] at hlast
    have hlast := Option.some.inj hlast
    have hisBlank := ha _ (List.getLast_mem hane)
    rw [hlast, isBlank_of_isPlain (n.plain _ (List.getLast_mem n.chars_ne_nil))] at hisBlank
    cases hisBlank
  rw [List.append_nil] at hspelled
  have hline : '\n' ∈ x := by
    obtain ⟨v, hv⟩ := hx
    have hlast : (v ++ x).getLast? = some '\n' := by
      rw [hv, List.getLast?_append]
      rfl
    rw [List.getLast?_append, List.getLast?_eq_some_getLast hne] at hlast
    obtain hlast := Option.some.inj hlast
    exact hlast ▸ List.getLast_mem hne
  exact not_spelling n (List.mem_append_left z' hline) (hspelled ▸ hw)

/-! ## The head of a declaration -/

/-- A quoted name is not read where another character stands. -/
theorem read_between_of_ne {q c : Char} (h : c ≠ q) (s : List Char) :
    (between q).read (c :: s) = [] := by
  simp [between, Phrase.char, h]

/-- A mark is read behind blanks. -/
theorem read_mark {b : List Char} (hb : ∀ c ∈ b, isBlank c) {c : Char} (hc : isBlank c = false)
    (s : List Char) : (mark c).read (b ++ c :: s) = [((), s)] := by
  rw [mark, read_bind, read_blanks_of_stop hb (forall_head?_cons hc s)]
  simp [Phrase.char]

/-- The table of a declaration is read as a plain name, where a word may begin. -/
theorem read_table (n : Name) {before : Option Char} (hbefore : before.any isWord = false)
    (s : List Char) :
    (Phrase.either (between '"') (.either (between '\'') (plainTable before))).read
      (n.chars ++ ':' :: s) = [(n.chars, ':' :: s)] := by
  obtain ⟨c, w, hname, hstart, hplain, hw⟩ := n.exists_cons
  have hboundary : wordBoundary before (some c) := by
    simp [wordBoundary, hbefore, isWord_of_isPlain hplain]
  have hchars : ∀ d ∈ w, isNameChar d := fun d hd => isNameChar_of_isPlain (hw d hd)
  have hcolon : ∀ d ∈ (':' :: s).head?, isNameChar d = false :=
    forall_head?_cons (by decide) s
  have hmember : isMemberStart c := isMemberStart_of_isNameStart hstart
  have htable : (plainTable before).read (c :: (w ++ ':' :: s)) = [(c :: w, ':' :: s)] := by
    simp [plainTable, Phrase.boundary, hboundary, Phrase.oneOf, hmember, Phrase.run,
      takeWhile_append_of_stop hchars hcolon, dropWhile_append_of_stop hchars hcolon]
  rw [hname, List.cons_append]
  show (between '"').read _ ++ ((between '\'').read _ ++ (plainTable before).read _) = _
  rw [read_between_of_ne (ne_of_class hplain rfl), read_between_of_ne (ne_of_class hplain rfl),
    htable]
  rfl

/-- The head of a row is read at the start of a declaration, where a word may begin. -/
theorem best?_rowHead (d : Declaration) {before : Option Char} (hbefore : before.any isWord = false)
    (rest : List Char) :
    (rowHead before).best? (d.head ++ rest) = some (d.table.chars, rest) := by
  have hspace : ∀ c ∈ [' '], isBlank c := List.forall_mem_singleton.2 isBlank_space
  have hcolon : ∀ s, (mark ':').read (':' :: s) = [((), s)] :=
    read_mark (b := []) (List.forall_mem_nil _) (by decide)
  have hbrace : ∀ s, (mark '{').read (' ' :: '{' :: s) = [((), s)] :=
    read_mark hspace (by decide)
  have hgap : ∀ s, Phrase.blanks.read (' ' :: 'R' :: s) = [((), 'R' :: s)] :=
    fun s => read_blanks_of_stop hspace (forall_head?_cons (by decide) s)
  have hrow : ∀ s, (Phrase.exactly ['R', 'o', 'w']).read ('R' :: 'o' :: 'w' :: s) = [((), s)] :=
    fun s => rfl
  have hhead : d.head ++ rest = d.table.chars ++
      ':' :: ' ' :: '{' :: ' ' :: 'R' :: 'o' :: 'w' :: ':' :: ' ' :: '{' :: rest := by
    simp [Declaration.head]
  rw [hhead, Phrase.best?, rowHead]
  simp only [read_bind, read_table d.table hbefore, hcolon, hbrace, hgap, hrow, read_pure,
    List.flatMap_cons, List.flatMap_nil, List.append_nil, List.head?_cons]

end SchemaDrift.TypeFile

import SchemaDrift.Proofs.Migration.Names
import SchemaDrift.Proofs.Query.Calls

/-!
# Calls on columns and the search for them

A call on a column is spelled as a head (`SpelledHead`), up to the quote behind the name of the
column, and perhaps a further argument (`SpelledArgument`). A head is read wherever it stands, in
one way only (`SpelledHead.read`), and some call is read with it (`SpelledHead.exists_best?`).

The search resumes behind what it has read of a call, and the argument may hold dots, as a call
begins with one. But a word behind such a dot ends with the argument and is not followed by a
parenthesis (`passive_argument`). So no head begins inside a call (`SpelledHead.behind_call`),
and the search finds a call at every head (`predicateEvents_at_heads`).
-/

namespace SchemaDrift.Query

open SchemaDrift.Text SchemaDrift.Migration SchemaDrift.Chain Phrase

variable {c : Char} {s rest text : List Char}

/-! ## Calls as they are spelled -/

/-- The head of a call on a column as it is spelled: a dot, a method, a parenthesis, blanks, and the
name of the column between quotes. -/
structure SpelledHead where
  method : Method
  gap : List Char
  opening : Char
  first : Char
  more : List Char
  closing : Char
  blank : gap.all isBlank
  opens : isQuote opening
  starts : isNameStart first
  goesOn : more.all isNameChar
  closes : isQuote closing

namespace SpelledHead

/-- The name of the column. -/
def column (h : SpelledHead) : List Char :=
  h.first :: h.more

/-- How the head of a comparison is spelled. -/
def spelling (h : SpelledHead) : List Char :=
  '.' :: (h.method.chars ++ '(' :: (h.gap ++ h.opening :: (h.column ++ [h.closing])))

/-- The head of a comparison before a text, symbol by symbol. -/
theorem spelling_append (h : SpelledHead) (rest : List Char) : h.spelling ++ rest =
    '.' :: (h.method.chars ++ '(' :: (h.gap ++ h.opening :: (h.column ++ h.closing :: rest))) := by
  simp [spelling]

end SpelledHead

/-- A further argument as it is spelled: a comma, a name that may hold dots, and a comma or a
parenthesis, with blanks around the name. -/
structure SpelledArgument where
  before : List Char
  first : Char
  more : List Char
  behind : List Char
  closing : Char
  blankBefore : before.all isBlank
  starts : isArgumentStart first
  goesOn : more.all isArgumentChar
  blankBehind : behind.all isBlank
  closes : closing = ',' ∨ closing = ')'

namespace SpelledArgument

/-- The name that an argument spells. -/
def name (a : SpelledArgument) : List Char :=
  a.first :: a.more

/-- How an argument of a comparison is spelled. -/
def spelling (a : SpelledArgument) : List Char :=
  ',' :: (a.before ++ (a.name ++ (a.behind ++ [a.closing])))

end SpelledArgument

/-- A call on a column as it is spelled, up to where a reading of it may end: a head, blanks, and an
argument or none. The runs in it need not be the longest ones. -/
structure SpelledCall where
  head : SpelledHead
  gap : List Char
  argument : Option SpelledArgument
  blank : gap.all isBlank

namespace SpelledCall

/-- How a comparison is spelled, with its argument or without. -/
def spelling (a : SpelledCall) : List Char :=
  a.head.spelling ++ (a.gap ++ a.argument.elim [] SpelledArgument.spelling)

/-- The call that is read. -/
def predicate (a : SpelledCall) : Predicate :=
  ⟨a.head.method.chars, a.head.column, a.argument.map SpelledArgument.name⟩

end SpelledCall

/-! ## Readings -/

/-- There are three kinds of quotes. -/
theorem isQuote_cases (h : isQuote c) : c = '\'' ∨ c = '"' ∨ c = '`' := by
  simpa only [isQuote, Bool.or_eq_true, beq_iff_eq, or_assoc] using h

/-- A quote is not blank. -/
theorem isBlank_of_isQuote (h : isQuote c) : isBlank c = false := by
  obtain rfl | rfl | rfl := isQuote_cases h <;> decide

/-- A quote belongs to no name. -/
theorem isNameChar_of_isQuote (h : isQuote c) : isNameChar c = false := by
  obtain rfl | rfl | rfl := isQuote_cases h <;> decide

/-- A head is read in one way. -/
theorem SpelledHead.read (h : SpelledHead) (rest : List Char) :
    predicateHead.read (h.spelling ++ rest) = [((h.method.chars, h.column), rest)] := by
  have hdot : ∀ s, (Phrase.char '.').read ('.' :: s) = [((), s)] := fun _ => rfl
  have hblanks := read_blanks_of_stop (List.all_eq_true.1 h.blank)
    (forall_head?_cons (isBlank_of_isQuote h.opens) (h.column ++ h.closing :: rest))
  have hstop : ∀ d ∈ (h.closing :: rest).head?, isNameChar d = false :=
    forall_head?_cons (isNameChar_of_isQuote h.closes) rest
  have hname : (plainName isNameStart).read (h.column ++ h.closing :: rest) =
      [(h.column, h.closing :: rest)] := by
    have hmore := List.all_eq_true.1 h.goesOn
    simp [plainName, oneOf, run, h.starts, column, takeWhile_append_of_stop hmore hstop,
      dropWhile_append_of_stop hmore hstop]
  have hquote : ∀ {q : Char}, isQuote q → ∀ s, (oneOf isQuote).read (q :: s) = [(q, s)] :=
    fun hq s => if_pos hq
  rw [spelling_append, predicateHead, read_bind, hdot, List.flatMap_cons, List.flatMap_nil,
    List.append_nil, read_operator_bind h.method.mem_operators]
  simp only [read_bind, hblanks, Query.quotedName, hquote h.opens, hname, hquote h.closes,
    read_pure, List.flatMap_cons, List.flatMap_nil, List.append_nil]

/-- What is read as the head of a comparison is spelled like one. -/
theorem exists_of_mem_read_predicateHead {r : (List Char × List Char) × List Char}
    (hr : r ∈ predicateHead.read s) :
    ∃ h : SpelledHead, r.1 = (h.method.chars, h.column) ∧ s = h.spelling ++ r.2 := by
  obtain ⟨dot, hdot, hr⟩ := mem_read_bind.1 hr
  obtain ⟨method, hmethod, hr⟩ := mem_read_bind.1 hr
  obtain ⟨opened, hopened, hr⟩ := mem_read_bind.1 hr
  obtain ⟨gap, hgap, hr⟩ := mem_read_bind.1 hr
  obtain ⟨quoted, hquoted, hr⟩ := mem_read_bind.1 hr
  obtain rfl := mem_read_pure.1 hr
  obtain ⟨opening, hopening, hr⟩ := mem_read_bind.1 hquoted
  obtain ⟨name, hname, hr⟩ := mem_read_bind.1 hr
  obtain ⟨closing, hclosing, hr⟩ := mem_read_bind.1 hr
  obtain rfl := mem_read_pure.1 hr
  obtain ⟨hknown, hoperator⟩ := eq_append_of_mem_read_operator hmethod
  obtain ⟨m, hm⟩ := mem_operators_iff.1 hknown
  obtain ⟨b, hb, hblanks⟩ := eq_append_of_mem_read_blanks hgap
  obtain ⟨hopens, hquote⟩ := eq_cons_of_mem_read_oneOf hopening
  obtain ⟨first, more, hfirst, hmore, hchars, hrest, -⟩ := exists_of_mem_read_plainName hname
  obtain ⟨hcloses, hend⟩ := eq_cons_of_mem_read_oneOf hclosing
  refine ⟨⟨m, b, opening.1, first, more, closing.1, List.all_eq_true.2 hb, hopens, hfirst,
    List.all_eq_true.2 hmore, hcloses⟩, ?_, ?_⟩
  · rw [hchars, hm]
    rfl
  · rw [eq_cons_of_mem_read_char hdot, hoperator, eq_cons_of_mem_read_char hopened, hblanks, hquote,
      hrest, hend, hchars, hm]
    simp [SpelledHead.spelling, SpelledHead.column]

/-- What is read as an argument is spelled like one. -/
theorem exists_of_mem_read_plainArgument {r : List Char × List Char}
    (hr : r ∈ plainArgument.read s) :
    ∃ a : SpelledArgument, r.1 = a.name ∧ s = a.spelling ++ r.2 := by
  obtain ⟨comma, hcomma, hr⟩ := mem_read_bind.1 hr
  obtain ⟨before, hbefore, hr⟩ := mem_read_bind.1 hr
  obtain ⟨first, hfirst, hr⟩ := mem_read_bind.1 hr
  obtain ⟨more, hmore, hr⟩ := mem_read_bind.1 hr
  obtain ⟨behind, hbehind, hr⟩ := mem_read_bind.1 hr
  obtain ⟨closing, hclosing, hr⟩ := mem_read_bind.1 hr
  obtain rfl := mem_read_pure.1 hr
  obtain ⟨b, hb, hblanks⟩ := eq_append_of_mem_read_blanks hbefore
  obtain ⟨hstarts, hname⟩ := eq_cons_of_mem_read_oneOf hfirst
  obtain ⟨hgoesOn, hrun⟩ := eq_append_of_mem_read_run hmore
  obtain ⟨b', hb', hblanks'⟩ := eq_append_of_mem_read_blanks hbehind
  obtain ⟨hcloses, hend⟩ := eq_cons_of_mem_read_oneOf hclosing
  refine ⟨⟨b, first.1, more.1, b', closing.1, List.all_eq_true.2 hb, hstarts,
    List.all_eq_true.2 hgoesOn, List.all_eq_true.2 hb', by simpa using hcloses⟩, rfl, ?_⟩
  rw [eq_cons_of_mem_read_char hcomma, hblanks, hname, hrun, hblanks', hend]
  simp [SpelledArgument.spelling, SpelledArgument.name]

/-- What is read as a call on a column is spelled like one. -/
theorem exists_of_mem_read_predicateCall {r : Predicate × List Char}
    (hr : r ∈ predicateCall.read s) :
    ∃ a : SpelledCall, r.1 = a.predicate ∧ s = a.spelling ++ r.2 := by
  obtain ⟨⟨⟨method, column⟩, behind⟩, hhead, hr⟩ := mem_read_bind.1 hr
  obtain ⟨gap, hgap, hr⟩ := mem_read_bind.1 hr
  obtain ⟨argument, hargument, hr⟩ := mem_read_bind.1 hr
  obtain rfl := mem_read_pure.1 hr
  obtain ⟨h, hh, hs⟩ := exists_of_mem_read_predicateHead hhead
  obtain ⟨rfl, rfl⟩ := Prod.mk.inj hh
  obtain ⟨b, hb, hblanks⟩ := eq_append_of_mem_read_blanks hgap
  dsimp only at hs hblanks
  rw [hs, hblanks]
  rcases mem_read_either.1 hargument with hsome | hnone
  · obtain ⟨name, hname, hr⟩ := mem_read_bind.1 hsome
    obtain rfl := mem_read_pure.1 hr
    obtain ⟨a, ha, hargument⟩ := exists_of_mem_read_plainArgument hname
    refine ⟨⟨h, b, some a, List.all_eq_true.2 hb⟩, ?_, ?_⟩
    · rw [ha]
      rfl
    · rw [hargument]
      simp [SpelledCall.spelling]
  · obtain rfl := mem_read_pure.1 hnone
    refine ⟨⟨h, b, none, List.all_eq_true.2 hb⟩, rfl, ?_⟩
    simp [SpelledCall.spelling]

/-- Where a head is spelled, a call on its column is read, with an argument or without. -/
theorem SpelledHead.exists_best? (h : SpelledHead) (rest : List Char) :
    ∃ argument rest', predicateCall.best? (h.spelling ++ rest) =
      some (⟨h.method.chars, h.column, argument⟩, rest') := by
  have hread : predicateCall.read (h.spelling ++ rest) = ((do
      blanks
      let argument ← optional plainArgument
      return ⟨h.method.chars, h.column, argument⟩ : Phrase Predicate)).read rest := by
    rw [predicateCall, read_bind, h.read, List.flatMap_singleton]
  have hbare : (⟨h.method.chars, h.column, none⟩, rest.dropWhile isBlank) ∈
      predicateCall.read (h.spelling ++ rest) := by
    rw [hread]
    refine mem_read_bind.2 ⟨((), rest.dropWhile isBlank), List.mem_singleton_self _, ?_⟩
    refine mem_read_bind.2 ⟨(none, rest.dropWhile isBlank), ?_, List.mem_singleton_self _⟩
    exact mem_read_either.2 (.inr (List.mem_singleton_self _))
  cases hbest : predicateCall.best? (h.spelling ++ rest) with
  | none =>
    rw [best?, List.head?_eq_none_iff] at hbest
    rw [hbest] at hbare
    cases hbare
  | some r =>
    have hr := List.mem_of_head? hbest
    rw [hread] at hr
    obtain ⟨gap, -, hr⟩ := mem_read_bind.1 hr
    obtain ⟨argument, -, hr⟩ := mem_read_bind.1 hr
    obtain rfl := mem_read_pure.1 hr
    exact ⟨argument.1, argument.2, rfl⟩

/-! ## No call inside a call -/

/-- In a name with dots no call begins, unless a parenthesis follows it. -/
theorem passive_argument {x z : List Char} (hx : ∀ c ∈ x, isArgumentChar c)
    (hc : isPlain c = false) (hopen : c ≠ '(') (hz : Passive (c :: z)) :
    Passive (x ++ c :: z) := by
  induction x with
  | nil => exact hz
  | cons d x ih =>
    rw [List.forall_mem_cons] at hx
    intro y hne hy rest w t hw heq
    obtain rfl | hy := List.suffix_cons_iff.1 hy
    · have hword : x ++ c :: (z ++ rest) = w ++ '(' :: t := by
        simpa using (List.cons_eq_cons.1 heq).2
      -- The word of a call would end in the name, at its end or behind it.
      rcases List.append_eq_append_iff.1 hword with ⟨m, rfl, hm⟩ | ⟨m, rfl, hm⟩
      · cases m with
        | nil => exact hopen (List.cons.inj hm).1
        | cons e m =>
          obtain ⟨rfl, -⟩ := List.cons_eq_cons.1 hm
          rw [hw c (by simp)] at hc
          cases hc
      · cases m with
        | nil => exact hopen (List.cons.inj hm).1.symm
        | cons e m =>
          obtain ⟨rfl, -⟩ := List.cons_eq_cons.1 hm
          exact absurd (hx.2 '(' (by simp)) (by decide)
    · exact ih hx.2 y hne hy rest w t hw heq

/-- Blanks are passive. -/
theorem passive_of_isBlank {x : List Char} (hx : x.all isBlank) : Passive x :=
  .of_not_mem (dot_not_mem_of_isBlank (List.all_eq_true.1 hx))

/-- A character that begins an argument may stand in one. -/
theorem isArgumentChar_of_isArgumentStart (h : isArgumentStart c) : isArgumentChar c := by
  rcases Bool.or_eq_true_iff.1 h with h | h
  · simp [isArgumentChar, isNameChar_of_isNameStart h]
  · rw [beq_iff_eq.1 h]
    decide

/-- An argument is passive, though it may hold dots. -/
theorem SpelledArgument.passive (a : SpelledArgument) : Passive a.spelling := by
  have hclosing : isPlain a.closing = false ∧ a.closing ≠ '(' ∧ '.' ∉ [a.closing] := by
    obtain h | h := a.closes <;> rw [h] <;> decide
  have hname : ∀ c ∈ a.name, isArgumentChar c :=
    List.forall_mem_cons.2 ⟨isArgumentChar_of_isArgumentStart a.starts,
      List.all_eq_true.1 a.goesOn⟩
  have hend : Passive (a.behind ++ [a.closing]) :=
    (passive_of_isBlank a.blankBehind).append (.of_not_mem hclosing.2.2)
  -- What follows the name, a blank or what closes the argument, is no parenthesis of a call.
  obtain ⟨c, z, hz, hc, hopen⟩ : ∃ c z, a.behind ++ [a.closing] = c :: z ∧
      isPlain c = false ∧ c ≠ '(' := by
    cases hbehind : a.behind with
    | nil => exact ⟨a.closing, [], rfl, hclosing.1, hclosing.2.1⟩
    | cons c b =>
      have hblank : isBlank c := List.all_eq_true.1 a.blankBehind c (by simp [hbehind])
      refine ⟨c, b ++ [a.closing], rfl, ?_, ne_of_class hblank (by decide)⟩
      cases hplain : isPlain c with
      | false => rfl
      | true =>
        rw [isBlank_of_isPlain hplain] at hblank
        cases hblank
  have hcomma : Passive [','] := .of_not_mem (by decide)
  have hrest : Passive (a.name ++ (a.behind ++ [a.closing])) := by
    rw [hz] at hend ⊢
    exact passive_argument hname hc hopen hend
  exact hcomma.append ((passive_of_isBlank a.blankBefore).append hrest)

/-- A head holds no dot but the one it begins with. -/
theorem SpelledHead.exists_not_mem (h : SpelledHead) : ∃ y, h.spelling = '.' :: y ∧ '.' ∉ y := by
  have hmethod : '.' ∉ h.method.chars := fun hmem =>
    absurd (plain_of_mem_operators h.method.mem_operators '.' hmem) (by decide)
  have hgap := dot_not_mem_of_isBlank (List.all_eq_true.1 h.blank)
  have hmore : '.' ∉ h.more := fun hmem =>
    absurd (List.all_eq_true.1 h.goesOn '.' hmem) (by decide)
  have hopening : h.opening ≠ '.' := ne_of_class h.opens (by decide)
  have hfirst : h.first ≠ '.' := ne_of_class h.starts (by decide)
  have hclosing : h.closing ≠ '.' := ne_of_class h.closes (by decide)
  refine ⟨_, rfl, ?_⟩
  simp [column, hmethod, hgap, hmore, hopening.symm, hfirst.symm, hclosing.symm]

/-- Behind its dot, no call begins in the spelling of a call. -/
theorem SpelledCall.exists_passive (a : SpelledCall) :
    ∃ y, a.spelling = '.' :: y ∧ Passive y := by
  obtain ⟨y, hy, hdot⟩ := a.head.exists_not_mem
  have hargument : Passive (a.argument.elim [] SpelledArgument.spelling) := by
    cases a.argument with
    | none => exact .of_not_mem List.not_mem_nil
    | some argument => exact argument.passive
  refine ⟨_, by rw [spelling, hy, List.cons_append], ?_⟩
  exact (Passive.of_not_mem hdot).append ((passive_of_isBlank a.blank).append hargument)

/-- Readings of comparisons do not begin inside each other. -/
theorem readsApart_predicateCall : ReadsApart predicateCall := by
  intro s b rest hbest
  obtain ⟨a, -, hs⟩ := exists_of_mem_read_predicateCall (List.mem_of_head? hbest)
  obtain ⟨y, hy, hpassive⟩ := a.exists_passive
  refine ⟨'.', y, by rw [hs, hy]; rfl, fun x hne hx => ?_⟩
  have hnil := opensWith_predicateCall.read_eq_nil (fun w hw => plain_of_mem_operators hw) hpassive
    hne hx rest
  rw [best?, hnil]
  rfl

/-- No head of a call begins inside the spelling of a call. -/
theorem SpelledHead.behind_call {a : SpelledCall} {h : SpelledHead} {i j : Nat}
    (ha : a.spelling <+: text.drop i) (hh : h.spelling <+: text.drop j) (hij : i < j) :
    i + a.spelling.length ≤ j := by
  obtain ⟨y, hy, hpassive⟩ := a.exists_passive
  obtain ⟨rest, hrest⟩ := ha
  obtain ⟨rest', hrest'⟩ := hh
  rw [hy, List.length_cons]
  by_contra hinside
  obtain ⟨n, rfl⟩ : ∃ n, j = i + (n + 1) := ⟨j - i - 1, by omega⟩
  have hdrop : text.drop (i + (n + 1)) = y.drop n ++ rest := by
    rw [← List.drop_drop, ← hrest, hy, List.cons_append, List.drop_succ_cons,
      List.drop_append_of_le_length (by omega)]
  have hne : y.drop n ≠ [] := List.ne_nil_of_length_pos (by rw [List.length_drop]; omega)
  rw [h.spelling_append, hdrop] at hrest'
  exact hpassive _ hne (List.drop_suffix n y) rest h.method.chars _
    (plain_of_mem_operators h.method.mem_operators)
    hrest'.symm

/-! ## Events -/

/-- The calls on columns are found at the places where a head begins, each once and in order, and
each with the column of its head. They are events of the module. The part of a call behind its head
never takes the head of another call, whichever way the call is read. -/
theorem predicateEvents_at_heads (text : List Char) :
    ((predicateEvents text).Pairwise fun a b => a.1 < b.1) ∧
    ((predicateEvents text).map (·.2)).Sublist (events text) ∧
    (∀ i column, (∃ use, (i, Event.column use) ∈ predicateEvents text ∧
        use.name = String.ofList column) ↔
      ∃ h : SpelledHead, h.column = column ∧ h.spelling <+: text.drop i) ∧
    (∀ i e, (i, e) ∈ predicateEvents text →
      ∃ a : SpelledCall, a.spelling <+: text.drop i ∧ e = .column a.predicate.use) ∧
    ∀ (a : SpelledCall) (h : SpelledHead) i j, a.spelling <+: text.drop i →
      h.spelling <+: text.drop j → i < j → i + a.spelling.length ≤ j := by
  have hfound : ∀ i e, (i, e) ∈ predicateEvents text →
      ∃ a : SpelledCall, a.spelling <+: text.drop i ∧ e = .column a.predicate.use := by
    intro i e he
    obtain ⟨o, ho, heq⟩ := List.mem_map.1 he
    obtain ⟨rfl, rfl⟩ := Prod.mk.inj heq
    obtain ⟨u, v, rfl, hstart, hbest, -⟩ := exists_of_mem_search ho
    obtain ⟨a, hvalue, hv⟩ := exists_of_mem_read_predicateCall (List.mem_of_head? hbest)
    refine ⟨a, ?_, congrArg (fun p => Event.column p.use) hvalue⟩
    rw [hstart, Nat.zero_add, List.drop_left, hv]
    exact List.prefix_append _ _
  have hsorted : (predicateEvents text).Pairwise fun a b => a.1 < b.1 :=
    List.pairwise_map.2 (pairwise_start_search 0 0 none text)
  refine ⟨hsorted, ?_, fun i column => ⟨?_, ?_⟩, hfound, fun a h i j => SpelledHead.behind_call⟩
  · have hplaced : (predicateEvents text).Pairwise fun a b => notBehind a b :=
      hsorted.imp fun hlt => decide_eq_true (Nat.le_of_lt hlt)
    refine (List.sublist_mergeSort notBehind_trans notBehind_total hplaced ?_).map _
    exact (List.sublist_append_right _ _).trans (List.sublist_append_left _ _)
  · rintro ⟨use, huse, hname⟩
    obtain ⟨a, ha, he⟩ := hfound i _ huse
    obtain rfl := Event.column.inj he
    exact ⟨a.head, String.ofList_injective hname, (List.prefix_append _ _).trans ha⟩
  · rintro ⟨h, rfl, rest, hrest⟩
    obtain ⟨argument, rest', hbest⟩ := h.exists_best? rest
    rw [hrest] at hbest
    have hlength : (text.take i).length = i := by
      have hlt : 0 < (text.drop i).length := by
        rw [← hrest, h.spelling_append]
        exact Nat.succ_pos _
      rw [List.length_drop] at hlt
      rw [List.length_take]
      omega
    obtain ⟨o, ho, hstart, hvalue⟩ := readsApart_predicateCall.exists_mem_search hbest 0 none
      (text.take i)
    rw [List.take_append_drop] at ho
    rw [hlength, Nat.zero_add] at hstart
    refine ⟨o.value.use, List.mem_map.2 ⟨o, ho, by rw [hstart]⟩, ?_⟩
    rw [hvalue]
    rfl

/-- Calls one behind the other, with a name of two words as an argument, and one inside the argument
of another. -/
def nestedCalls : List Char :=
  ".eq('a_id', x.lt).neq( \"b\", f.gt('c', d))".toList

/-- The first call, which takes a word with a dot. -/
def dottedCall : SpelledCall where
  head := ⟨.eq, [], '\'', 'a', ['_', 'i', 'd'], '\'', rfl, rfl, rfl, rfl, rfl⟩
  gap := []
  argument := some ⟨[' '], 'x', ['.', 'l', 't'], [], ')', rfl, rfl, rfl, rfl, .inr rfl⟩
  blank := rfl

/-- The head of the call inside an argument. -/
def innerHead : SpelledHead :=
  ⟨.gt, [], '\'', 'c', [], '\'', rfl, rfl, rfl, rfl, rfl⟩

/-- Behind a comparison whose argument holds a dot, the comparison inside another call is found. -/
theorem predicateEvents_nestedCalls :
    dottedCall.spelling <+: nestedCalls.drop 0 ∧ innerHead.spelling <+: nestedCalls.drop 29 ∧
    (∃ use, (29, Event.column use) ∈ predicateEvents nestedCalls ∧ use.name = String.ofList ['c']) ∧
    0 + dottedCall.spelling.length ≤ 29 := by
  have hfound := predicateEvents_at_heads nestedCalls
  have hdotted : dottedCall.spelling <+: nestedCalls.drop 0 := by decide +kernel
  have hinner : innerHead.spelling <+: nestedCalls.drop 29 := by decide +kernel
  exact ⟨hdotted, hinner, (hfound.2.2.1 29 ['c']).2 ⟨innerHead, rfl, hinner⟩,
    hfound.2.2.2.2 dottedCall innerHead 0 29 hdotted hinner (by decide)⟩

end SchemaDrift.Query

import SchemaDrift.Proofs.Query.Chain
import SchemaDrift.Proofs.Query.Order

/-!
# The calls of a chain

Each of the three searches in a module is for a dot, a method and a parenthesis (`OpensWith`). A
plain word that is not a method, or that no parenthesis follows, is passed over (`Passive`), so every
search finds the calls with its own methods, at the positions where they begin, and nothing else
(`Gives`). Methods are told apart as whole words, though some of them begin with another one.

Put in order, the events of a module are those of its parts (`events_parts`).
-/

namespace SchemaDrift.Chain

open Text Scan Migration Query

variable {β : Type} {w x y s : List Char} {ws : List (List Char)} {p : Phrase β}
  {e : β → List Event}

/-! ## Texts without calls -/

/-- The plain word that a text begins with is settled by the symbol that ends it. -/
theorem eq_of_plain_append {v t : List Char} {c d : Char} (hw : ∀ c ∈ w, isPlain c)
    (hv : ∀ c ∈ v, isPlain c) (hc : isPlain c = false) (hd : isPlain d = false)
    (h : w ++ c :: s = v ++ d :: t) : w = v ∧ c = d ∧ s = t := by
  obtain rfl : w = v := by
    rw [← takeWhile_append_of_stop hw (forall_head?_cons hc s), h,
      takeWhile_append_of_stop hv (forall_head?_cons hd t)]
  obtain ⟨hcd, hst⟩ := List.cons_eq_cons.1 (List.append_cancel_left h)
  exact ⟨rfl, hcd, hst⟩

/-- A text in which no call begins, whatever follows. -/
def Passive (x : List Char) : Prop :=
  ∀ y, y ≠ [] → y <:+ x → ∀ rest w t, (∀ c ∈ w, isPlain c) → y ++ rest ≠ '.' :: (w ++ '(' :: t)

namespace Passive

/-- A text without a dot is passive. -/
theorem of_not_mem (h : '.' ∉ x) : Passive x := by
  intro y hne hy rest w t hw heq
  obtain ⟨c, y, rfl⟩ := List.exists_cons_of_ne_nil hne
  obtain ⟨rfl, -⟩ := List.cons_eq_cons.1 heq
  exact h (hy.subset List.mem_cons_self)

/-- Passive texts one after the other are passive. -/
theorem append (hx : Passive x) (hy : Passive y) : Passive (x ++ y) := by
  intro z hne hz rest w t hw heq
  obtain ⟨a, ha⟩ := hz
  obtain ⟨b, rfl, rfl⟩ | ⟨b, -, rfl⟩ := List.append_eq_append_iff.1 ha
  · cases b with
    | nil => exact hy y hne List.suffix_rfl rest w t hw heq
    | cons c b =>
      rw [List.append_assoc] at heq
      exact hx _ (List.cons_ne_nil c b) (List.suffix_append a _) (y ++ rest) w t hw heq
  · exact hy z hne (List.suffix_append b z) rest w t hw heq

/-- A dot begins no call if the word behind it is not followed by a parenthesis. -/
theorem dot {c : Char} (hw : ∀ c ∈ w, isPlain c) (hc : isPlain c = false) (hopen : c ≠ '(')
    (hx : Passive (c :: x)) : Passive ('.' :: (w ++ c :: x)) := by
  intro z hne hz rest v t hv heq
  obtain rfl | hz := List.suffix_cons_iff.1 hz
  · have hword := (List.cons_eq_cons.1 heq).2
    rw [List.append_eq, List.append_assoc, List.cons_append] at hword
    exact hopen (eq_of_plain_append hw hv hc rfl hword).2.1
  · have hplain : Passive w := .of_not_mem fun hdot => absurd (hw '.' hdot) (by decide)
    exact hplain.append hx z hne hz rest v t hv heq

end Passive

/-- A comparison begins no call if no parenthesis follows it. -/
theorem passive_comparison (c : Comparison) {d : Char} (hd : isPlain d = false) (hopen : d ≠ '(')
    (hx : Passive (d :: x)) : Passive (comparisonChars c ++ d :: x) := by
  have hcolumn : Passive c.column.chars := .of_not_mem (c.column.not_mem rfl)
  have hvalue : Passive ('.' :: (c.value.chars ++ d :: x)) := .dot c.value.plain hd hopen hx
  have hmethod : Passive ('.' :: (c.method.chars ++ '.' :: (c.value.chars ++ d :: x))) :=
    .dot c.method.plain rfl (by decide) hvalue
  simpa [comparisonChars] using hcolumn.append hmethod

/-- The quoted text of several comparisons is passive, though it holds dots. -/
theorem passive_comparisons (cs : List Comparison) :
    Passive (quoted (comparisonsChars cs) ++ [')']) := by
  have hend : Passive ['\'', ')'] := .of_not_mem (by decide)
  have hlater : ∀ cs : List Comparison,
      Passive ((cs.map comparisonChars).flatMap (',' :: ·) ++ ['\'', ')']) ∧
        ∃ d s, (cs.map comparisonChars).flatMap (',' :: ·) ++ ['\'', ')'] = d :: s ∧
          isPlain d = false ∧ d ≠ '(' := by
    intro cs
    induction cs with
    | nil => exact ⟨hend, '\'', [')'], rfl, rfl, by decide⟩
    | cons c cs ih =>
      obtain ⟨hrest, d, s, heq, hd, hopen⟩ := ih
      refine ⟨?_, ',', _, rfl, rfl, by decide⟩
      have hcomma : Passive [','] := .of_not_mem (by decide)
      have hnext := hcomma.append (passive_comparison c hd hopen (heq ▸ hrest))
      rw [← heq] at hnext
      simpa using hnext
  have hquote : Passive ['\''] := .of_not_mem (by decide)
  cases cs with
  | nil => exact .of_not_mem (by decide)
  | cons c cs =>
    obtain ⟨hrest, d, s, heq, hd, hopen⟩ := hlater cs
    have hall := hquote.append (passive_comparison c hd hopen (heq ▸ hrest))
    rw [← heq] at hall
    simpa [quoted, comparisonsChars] using hall

/-! ## Searches for calls -/

/-- A phrase that is read off nothing but calls of given methods. -/
def OpensWith (ws : List (List Char)) (p : Phrase β) : Prop :=
  ∀ s r, r ∈ p.read s → ∃ w ∈ ws, ∃ t, s = '.' :: (w ++ '(' :: t)

/-- The events that the occurrences of a phrase stand for, each with its position. -/
def eventsAt (e : β → List Event) (os : List (Occurrence β)) : List (Nat × Event) :=
  os.flatMap fun o => (e o.value).map (o.start, ·)

/-- A search finds the given events at the start of a text and no others in it, whatever stands
before and behind the text. -/
def Gives (p : Phrase β) (e : β → List Event) (x : List Char) (es : List Event) : Prop :=
  ∀ i before rest, ∃ before', eventsAt e (search (fun _ => p) 0 i before (x ++ rest)) =
    es.map (i, ·) ++ eventsAt e (search (fun _ => p) 0 (i + x.length) before' rest)

/-- A phrase that is read nowhere in a text gives nothing in it. -/
theorem gives_refused (h : ∀ y, y ≠ [] → y <:+ x → ∀ rest, p.read (y ++ rest) = []) :
    Gives p e x [] := by
  intro i before rest
  exact ⟨_, by rw [search_refused i before fun y hne hy _ => h y hne hy rest]; rfl⟩

/-- A phrase that opens with plain methods is read nowhere in a passive text. -/
theorem OpensWith.read_eq_nil (hp : OpensWith ws p) (hws : ∀ w ∈ ws, ∀ c ∈ w, isPlain c)
    (hx : Passive x) (hne : y ≠ []) (hy : y <:+ x) (rest : List Char) :
    p.read (y ++ rest) = [] := by
  refine List.eq_nil_iff_forall_not_mem.2 fun r hr => ?_
  obtain ⟨w, hw, t, heq⟩ := hp _ r hr
  exact hx y hne hy rest w t (hws w hw) heq

/-- A phrase that opens with plain methods gives nothing in a passive text. -/
theorem OpensWith.gives_passive (hp : OpensWith ws p) (hws : ∀ w ∈ ws, ∀ c ∈ w, isPlain c)
    (hx : Passive x) : Gives p e x [] :=
  gives_refused fun _ hne hy rest => hp.read_eq_nil hws hx hne hy rest

/-- A search passes over a call of another method. -/
theorem OpensWith.gives_other (hp : OpensWith ws p) (hws : ∀ w ∈ ws, ∀ c ∈ w, isPlain c)
    (hw : ∀ c ∈ w, isPlain c) (hother : w ∉ ws) (hx : Passive x) :
    Gives p e ('.' :: (w ++ '(' :: x)) [] := by
  have hopen : Passive ['('] := .of_not_mem (by decide)
  have hword : Passive w := .of_not_mem fun hdot => absurd (hw '.' hdot) (by decide)
  refine gives_refused fun y hne hy rest => ?_
  obtain rfl | hy := List.suffix_cons_iff.1 hy
  · refine List.eq_nil_iff_forall_not_mem.2 fun r hr => ?_
    obtain ⟨v, hv, t, heq⟩ := hp _ r hr
    have hmethod := (List.cons_eq_cons.1 heq).2
    rw [List.append_eq, List.append_assoc, List.cons_append] at hmethod
    obtain ⟨rfl, -⟩ := eq_of_plain_append hw (hws v hv) rfl rfl hmethod
    exact hother hv
  · exact hp.read_eq_nil hws (hword.append (hopen.append hx)) hne hy rest

/-- A search finds a call that it reads and passes over what it leaves of it. -/
theorem OpensWith.gives_found {b : β} (hp : OpensWith ws p) (hws : ∀ w ∈ ws, ∀ c ∈ w, isPlain c)
    (hy : y ≠ []) (hx : Passive x)
    (h : ∀ rest, p.best? (y ++ (x ++ rest)) = some (b, x ++ rest)) : Gives p e (y ++ x) (e b) := by
  intro i before rest
  obtain ⟨before', hrest⟩ := hp.gives_passive (e := e) hws hx (i + y.length)
    (y.getLast?.or before) rest
  refine ⟨before', ?_⟩
  rw [List.append_assoc, search_found i hy (h rest), List.length_append, ← Nat.add_assoc]
  show (e b).map (i, ·) ++ eventsAt e (search (fun _ => p) 0 (i + y.length) _ (x ++ rest)) = _
  rw [hrest]
  rfl

/-- A search over parts that each give their events finds the layout of these events. -/
theorem eventsAt_search {f : Part → List Event} (h : ∀ a : Part, Gives p e a.chars (f a)) (i : Nat)
    (before : Option Char) (as : List Part) :
    eventsAt e (search (fun _ => p) 0 i before (as.flatMap Part.chars)) =
      placed (fun a : Part => a.chars.length) f i as := by
  induction as generalizing i before with
  | nil => rfl
  | cons a as ih =>
    obtain ⟨before', hstep⟩ := h a i before (as.flatMap Part.chars)
    rw [List.flatMap_cons, hstep, ih, placed]

/-! ## Names between quotes -/

/-- Where no blank stands, blanks are read as nothing. -/
theorem read_blanks_nil {c : Char} (hc : isBlank c = false) (s : List Char) :
    Phrase.blanks.read (c :: s) = [((), c :: s)] :=
  read_blanks_of_stop (b := []) (List.forall_mem_nil _) (forall_head?_cons hc s)

/-- A quote is not blank. -/
theorem isBlank_quote : isBlank '\'' = false := by
  decide

/-- The texts between quotes hold no quote. -/
theorem isQuote_of_isListed {c : Char} (h : isListed c) : isQuote c = false := by
  by_contra hc
  simp only [isQuote, Bool.not_eq_false, Bool.or_eq_true, beq_iff_eq] at hc
  obtain (rfl | rfl) | rfl := hc <;> cases h

/-- A quote is read off the text that it begins. -/
theorem read_quote (s : List Char) : (Phrase.oneOf isQuote).read ('\'' :: s) = [('\'', s)] :=
  rfl

/-- Before a quoted text, blanks are read as nothing. -/
theorem read_blanks_quoted (x s : List Char) :
    Phrase.blanks.read (quoted x ++ s) = [((), quoted x ++ s)] :=
  read_blanks_nil isBlank_quote _

/-- A name is read up to the first character that belongs to none. -/
theorem read_plainName (n : PlainName) {c : Char} (hc : isNameChar c = false) (s : List Char) :
    (plainName isNameStart).read (n.chars ++ c :: s) = [(n.chars, c :: s)] := by
  obtain ⟨d, w, hname, hstart, -, hw⟩ := n.exists_cons
  have hchars : ∀ d ∈ w, isNameChar d := fun d hd => isNameChar_of_isPlain (hw d hd)
  have hstop : ∀ d ∈ (c :: s).head?, isNameChar d = false := forall_head?_cons hc s
  simp [hname, plainName, Phrase.oneOf, hstart, Phrase.run,
    takeWhile_append_of_stop hchars hstop, dropWhile_append_of_stop hchars hstop]

/-- A quoted name is read in one way. -/
theorem read_quotedName (n : PlainName) (s : List Char) :
    Query.quotedName.read (quoted n.chars ++ s) = [(n.chars, s)] := by
  have hname := read_plainName n (c := '\'') (by decide) s
  rw [Query.quotedName, quoted, List.cons_append, List.append_assoc]
  simp only [read_bind, read_quote, hname, read_pure, List.singleton_append, List.flatMap_cons,
    List.flatMap_nil, List.append_nil]

/-! ## Selections -/

/-- The selection of a table opens with its method. -/
theorem opensWith_fromCall : OpensWith [['f', 'r', 'o', 'm']] fromCall := by
  intro s r hr
  obtain ⟨a, ha, -⟩ := mem_read_bind.1 hr
  exact ⟨_, List.mem_singleton_self _, a.2, eq_append_of_mem_read_exactly ha⟩

/-- The selection of a table is read as its name. -/
theorem best?_fromCall (n : PlainName) (rest : List Char) :
    fromCall.best? (callChars ['f', 'r', 'o', 'm'] (quoted n.chars) ++ rest) =
      some (n.chars, rest) := by
  have hmethod : ∀ s, (Phrase.exactly ['.', 'f', 'r', 'o', 'm', '(']).read
      ('.' :: 'f' :: 'r' :: 'o' :: 'm' :: '(' :: s) = [((), s)] := fun _ => rfl
  have hclose : ∀ s, (Phrase.char ')').read (')' :: s) = [((), s)] := fun _ => rfl
  have htext : callChars ['f', 'r', 'o', 'm'] (quoted n.chars) ++ rest =
      '.' :: 'f' :: 'r' :: 'o' :: 'm' :: '(' :: (quoted n.chars ++ ')' :: rest) := by
    simp [callChars]
  rw [htext, Phrase.best?, fromCall]
  simp only [read_bind, hmethod, read_blanks_quoted, read_quotedName, hclose, read_pure,
    read_blanks_nil (show isBlank ')' = false by decide), List.flatMap_cons, List.flatMap_nil,
    List.append_nil, List.head?_cons]

/-! ## Comparisons of a column -/

/-- The readings of one of several phrases are those of each of them, in order. -/
theorem read_foldr_either {α : Type} (f : α → Phrase β) (as : List α) (s : List Char) :
    ((as.map f).foldr Phrase.either Phrase.never).read s = as.flatMap fun a => (f a).read s := by
  induction as with
  | nil => rfl
  | cons a as ih => exact congrArg ((f a).read s ++ ·) ih

/-- What is read as an operator is one, and it is what the text begins with. -/
theorem eq_append_of_mem_read_operator {r : List Char × List Char} (h : r ∈ operator.read s) :
    r.1 ∈ operators ∧ s = r.1 ++ r.2 := by
  rw [operator, read_foldr_either] at h
  obtain ⟨o, ho, h⟩ := List.mem_flatMap.1 h
  obtain ⟨a, ha, h⟩ := mem_read_bind.1 h
  obtain rfl := mem_read_pure.1 h
  exact ⟨ho, eq_append_of_mem_read_exactly ha⟩

/-- A comparison opens with an operator. -/
theorem opensWith_predicateCall : OpensWith operators predicateCall := by
  intro s r hr
  obtain ⟨head, hhead, -⟩ := mem_read_bind.1 hr
  obtain ⟨dot, hdot, hhead⟩ := mem_read_bind.1 hhead
  obtain ⟨method, hmethod, hhead⟩ := mem_read_bind.1 hhead
  obtain ⟨brace, hbrace, -⟩ := mem_read_bind.1 hhead
  obtain ⟨hknown, hs⟩ := eq_append_of_mem_read_operator hmethod
  refine ⟨method.1, hknown, brace.2, ?_⟩
  rw [eq_cons_of_mem_read_char hdot, hs, eq_cons_of_mem_read_char hbrace]

/-- If one element alone gives something, all together give what it gives. -/
theorem flatMap_eq_of_unique {α γ : Type} {as : List α} {f : α → List γ} {a : α} (hnodup : as.Nodup)
    (ha : a ∈ as) (h : ∀ b ∈ as, b ≠ a → f b = []) : as.flatMap f = f a := by
  induction as with
  | nil => cases ha
  | cons b as ih =>
    rw [List.nodup_cons] at hnodup
    rw [List.flatMap_cons]
    rcases List.mem_cons.1 ha with rfl | ha
    · have hrest : as.flatMap f = [] := by
        refine List.flatMap_eq_nil_iff.2 fun b hb => ?_
        exact h b (List.mem_cons_of_mem _ hb) fun he => hnodup.1 (he ▸ hb)
      rw [hrest, List.append_nil]
    · have hne : b ≠ a := fun he => hnodup.1 (he ▸ ha)
      rw [h b List.mem_cons_self hne, List.nil_append,
        ih hnodup.2 ha fun b' hb' => h b' (List.mem_cons_of_mem _ hb')]

/-- Of the methods, only the whole word is followed by a parenthesis. -/
theorem read_operator_bind {f : List Char → Phrase β} (hw : w ∈ operators) (s : List Char) :
    (operator >>= fun op => Phrase.char '(' >>= fun _ => f op).read (w ++ '(' :: s) =
      (f w).read s := by
  have hopen : (Phrase.char '(').read ('(' :: s) = [((), s)] := rfl
  rw [read_bind, operator, read_foldr_either, List.flatMap_assoc,
    flatMap_eq_of_unique (a := w) (by decide) hw]
  · simp [read_exactly_append, hopen]
  · intro v hv hne
    refine List.flatMap_eq_nil_iff.2 fun r hr => List.eq_nil_iff_forall_not_mem.2 fun q hq => hne ?_
    obtain ⟨a, ha, hr⟩ := mem_read_bind.1 hr
    obtain rfl := mem_read_pure.1 hr
    obtain ⟨b, hb, -⟩ := mem_read_bind.1 hq
    have hsplit := eq_append_of_mem_read_exactly ha
    rw [eq_cons_of_mem_read_char hb] at hsplit
    exact (eq_of_plain_append (plain_of_mem_operators hw) (plain_of_mem_operators hv) rfl rfl
      hsplit).1.symm

/-- The second argument of a comparison is read if it is a name. -/
theorem read_plainArgument (n : PlainName) (s : List Char) :
    plainArgument.read (',' :: ' ' :: (n.chars ++ ')' :: s)) = [(n.chars, s)] := by
  obtain ⟨d, w, hname, hstart, hplain, hw⟩ := n.exists_cons
  have hchars : ∀ d ∈ w, isArgumentChar d := fun d hd => by
    simp [isArgumentChar, isNameChar_of_isPlain (hw d hd)]
  have hstop : ∀ d ∈ (')' :: s).head?, isArgumentChar d = false :=
    forall_head?_cons (by decide) s
  have hargument : isArgumentStart d := by
    simp only [isNameStart] at hstart
    simp [isArgumentStart, hstart]
  have hcomma : (Phrase.char ',').read (',' :: ' ' :: (d :: (w ++ ')' :: s))) =
      [((), ' ' :: d :: (w ++ ')' :: s))] := rfl
  have hspace : Phrase.blanks.read (' ' :: d :: (w ++ ')' :: s)) =
      [((), d :: (w ++ ')' :: s))] :=
    read_blanks_of_stop (List.forall_mem_singleton.2 isBlank_space)
      (forall_head?_cons (isBlank_of_isPlain hplain) _)
  have hend : (Phrase.oneOf fun c => c == ',' || c == ')').read (')' :: s) = [(')', s)] := rfl
  have hfirst : (Phrase.oneOf isArgumentStart).read (d :: (w ++ ')' :: s)) =
      [(d, w ++ ')' :: s)] := by
    simp [Phrase.oneOf, hargument]
  have hrun : (Phrase.run isArgumentChar).read (w ++ ')' :: s) = [(w, ')' :: s)] := by
    simp [Phrase.run, takeWhile_append_of_stop hchars hstop, dropWhile_append_of_stop hchars hstop]
  rw [hname, List.cons_append, plainArgument]
  simp only [read_bind, hcomma, hspace, hfirst, hrun, hend, read_pure,
    read_blanks_nil (show isBlank ')' = false by decide), List.flatMap_cons, List.flatMap_nil,
    List.append_nil]

/-- The head of a comparison is read as its operator and its column. -/
theorem read_predicateHead (hw : w ∈ operators) (column : PlainName) (s : List Char) :
    predicateHead.read ('.' :: (w ++ '(' :: (quoted column.chars ++ s))) =
      [((w, column.chars), s)] := by
  have hdot : ∀ s, (Phrase.char '.').read ('.' :: s) = [((), s)] := fun _ => rfl
  rw [predicateHead, read_bind, hdot, List.flatMap_cons, List.flatMap_nil, List.append_nil,
    read_operator_bind hw]
  simp only [read_bind, read_blanks_quoted, read_quotedName, read_pure, List.flatMap_cons,
    List.flatMap_nil, List.append_nil]

/-- A comparison is read with the name behind its column, which is preferred to none. -/
theorem best?_predicateCall (hw : w ∈ operators) (column value : PlainName) (rest : List Char) :
    predicateCall.best?
      (callChars w (quoted column.chars ++ ',' :: ' ' :: value.chars) ++ rest) =
      some (⟨w, column.chars, some value.chars⟩, rest) := by
  have htext : callChars w (quoted column.chars ++ ',' :: ' ' :: value.chars) ++ rest =
      '.' :: (w ++ '(' :: (quoted column.chars ++
        ',' :: ' ' :: (value.chars ++ ')' :: rest))) := by
    simp [callChars]
  have hargument : (Phrase.optional plainArgument).read
      (',' :: ' ' :: (value.chars ++ ')' :: rest)) =
      [(some value.chars, rest), (none, ',' :: ' ' :: (value.chars ++ ')' :: rest))] := by
    show (plainArgument >>= pure ∘ some).read _ ++ _ = _
    rw [read_bind, read_plainArgument]
    rfl
  rw [htext, Phrase.best?, predicateCall]
  simp only [read_bind, read_predicateHead hw, hargument, read_pure,
    read_blanks_nil (show isBlank ',' = false by decide), List.flatMap_cons, List.flatMap_nil,
    List.append_nil, List.head?_cons, List.cons_append]

/-! ## Comparisons in one text -/

/-- A call with several comparisons opens with its method. -/
theorem opensWith_orCall : OpensWith [['o', 'r']] orCall := by
  intro s r hr
  obtain ⟨a, ha, -⟩ := mem_read_bind.1 hr
  exact ⟨_, List.mem_singleton_self _, a.2, eq_append_of_mem_read_exactly ha⟩

/-- A call with several comparisons is read as their text. -/
theorem best?_orCall (hs : ∀ c ∈ s, isListed c) (rest : List Char) :
    orCall.best? ('.' :: 'o' :: 'r' :: '(' :: quoted s ++ rest) = some (s, rest) := by
  have hmethod : ∀ s, (Phrase.exactly ['.', 'o', 'r', '(']).read
      ('.' :: 'o' :: 'r' :: '(' :: s) = [((), s)] := fun _ => rfl
  have hlisted : ∀ c ∈ s, !isQuote c := by
    intro c hc
    rw [isQuote_of_isListed (hs c hc)]
    rfl
  have hstop : ∀ c ∈ ('\'' :: rest).head?, (!isQuote c) = false := by
    rintro c ⟨⟩
    rfl
  have hrun : (Phrase.run fun c => !isQuote c).read (s ++ '\'' :: rest) = [(s, '\'' :: rest)] := by
    simp [Phrase.run, takeWhile_append_of_stop hlisted hstop,
      dropWhile_append_of_stop hlisted hstop]
  have htext : '.' :: 'o' :: 'r' :: '(' :: quoted s ++ rest =
      '.' :: 'o' :: 'r' :: '(' :: '\'' :: (s ++ '\'' :: rest) := by
    simp [quoted]
  rw [htext, Phrase.best?, orCall]
  simp only [read_bind, hmethod, read_blanks_nil isBlank_quote, read_quote, hrun, read_pure,
    List.flatMap_cons, List.flatMap_nil, List.append_nil, List.head?_cons]

/-- A comparison has no blanks at its ends. -/
theorem tight_comparison (c : Comparison) : Tight (comparisonChars c) := by
  have hends := (tight_of_plain c.column.plain c.column.chars_ne_nil).between
    ('.' :: (c.method.chars ++ ['.'])) (tight_of_plain c.value.plain c.value.chars_ne_nil)
  simpa [comparisonChars] using hends

/-- A comparison holds no comma outside parentheses. -/
theorem nested_comparison (c : Comparison) : Nested [','] (comparisonChars c) := by
  refine Nested.of_forall fun d hd => ?_
  obtain hplain | rfl := mem_comparisonChars hd
  · exact ⟨isOrdinary_of_isPlain hplain, not_mem_of_isPlain hplain (by decide)⟩
  · exact ⟨rfl, by decide⟩

/-- The column of a comparison is read off its text. -/
theorem best?_comparedColumn (c : Comparison) :
    (comparedColumn.best? (trim (comparisonChars c))).map (·.1) = some c.column.chars := by
  rw [(tight_comparison c).trim_eq, Phrase.best?, comparedColumn, comparisonChars, read_bind,
    read_plainName c.column (by decide)]
  rfl

/-- The columns of several comparisons are read off their text, in order. -/
theorem comparedColumns_eq (cs : List Comparison) :
    comparedColumns (comparisonsChars cs) = cs.map (·.column.chars) := by
  cases cs with
  | nil => rfl
  | cons c cs =>
    have hcode : codePieces .typeScript (comparisonsChars (c :: cs)) =
        (comparisonsChars (c :: cs)).map .code := by
      refine codePieces_plain (List.any_eq_false.2 fun d hd => ?_)
      have hquote : opensLiteral d = false :=
        isQuote_of_isListed (listed_comparisons (c :: cs) d hd)
      rw [hquote]
      exact Bool.false_ne_true
    have hnested : ∀ y ∈ cs.map comparisonChars, Nested [','] y := by
      intro y hy
      obtain ⟨c', -, rfl⟩ := List.mem_map.1 hy
      exact nested_comparison c'
    have hsplit : splitTopLevel .typeScript ',' (comparisonsChars (c :: cs)) =
        (c :: cs).map comparisonChars := by
      rw [splitTopLevel, hcode, comparisonsChars,
        splitPieces_joined rfl (nested_comparison c) hnested]
      rfl
    rw [comparedColumns, hsplit, List.filterMap_map]
    exact (List.filterMap_congr fun c' _ => best?_comparedColumn c').trans
      (congrFun (List.filterMap_eq_map (f := fun c : Comparison => c.column.chars)) _)

/-! ## Events of a module -/

/-- The selection that a part makes. -/
def Part.selected : Part → List Event
  | select table => [.table table.text]
  | _ => []

/-- The column that a part compares in a call of its own. -/
def Part.compared : Part → List Event
  | call (.compare method column value) =>
    (usesOfCall (.compare method column value)).map .column
  | _ => []

/-- A comparison is for equality if its method is. -/
theorem use_comparison (method : Method) (column : List Char) (argument : Option (List Char)) :
    Predicate.use ⟨method.chars, column, argument⟩ =
      ⟨String.ofList column, method = .eq, argument.map String.ofList⟩ := by
  cases method <;> rfl

/-- The columns that a part compares in one text. -/
def Part.listed : Part → List Event
  | call (.anyOf cs) => (usesOfCall (.anyOf cs)).map .column
  | _ => []

/-- The events that a part stands for. -/
def Part.events (a : Part) : List Event :=
  a.selected ++ a.compared ++ a.listed

/-- A quoted name before a text without a dot is passive. -/
theorem passive_quoted (n : PlainName) (hx : '.' ∉ x) : Passive (quoted n.chars ++ x) := by
  refine .of_not_mem ?_
  simp [quoted, n.not_mem (c := '.') rfl, hx]

/-- The arguments of a comparison are passive. -/
theorem passive_arguments (column value : PlainName) :
    Passive (quoted column.chars ++ ',' :: ' ' :: value.chars ++ [')']) := by
  rw [List.append_assoc]
  refine passive_quoted column ?_
  simp [value.not_mem (c := '.') rfl]

/-- The client at the start of a chain is passive. -/
theorem passive_client : Passive Part.client.chars :=
  .of_not_mem (by decide)

/-- The end of a chain is passive. -/
theorem passive_finish : Passive Part.finish.chars :=
  .of_not_mem (by decide)

/-- Methods are plain words. -/
theorem plain_of_mem_method {v : List Char} (hv : v.all isPlain) :
    ∀ w ∈ [v], ∀ c ∈ w, isPlain c :=
  List.forall_mem_singleton.2 (List.all_eq_true.1 hv)

/-- An operator differs from a method that is none of the operators. -/
theorem not_mem_of_known {v : List Char} (hv : v ∉ operators) (hw : w ∈ operators) : w ∉ [v] := by
  intro hmem
  rw [List.mem_singleton.1 hmem] at hw
  exact hv hw

/-- The selections that a part gives are the tables it selects. -/
theorem gives_selected (a : Part) :
    Gives fromCall (fun table => [.table (String.ofList table)]) a.chars a.selected := by
  have hfrom := opensWith_fromCall
  have hplain : ∀ w ∈ [['f', 'r', 'o', 'm']], ∀ c ∈ w, isPlain c := plain_of_mem_method rfl
  cases a with
  | client => exact hfrom.gives_passive hplain passive_client
  | finish => exact hfrom.gives_passive hplain passive_finish
  | select table =>
    have h := hfrom.gives_found (e := fun table => [.table (String.ofList table)]) hplain
      (List.cons_ne_nil _ _) (x := []) (.of_not_mem List.not_mem_nil) (best?_fromCall table)
    rw [List.append_nil] at h
    exact h
  | call c =>
    cases c with
    | compare method column value =>
      exact hfrom.gives_other hplain (plain_of_mem_operators method.mem_operators)
        (not_mem_of_known (by decide) method.mem_operators)
        (passive_arguments column value)
    | anyOf cs =>
      exact hfrom.gives_other hplain (List.all_eq_true.1 rfl) (by decide) (passive_comparisons cs)

/-- The comparisons that a part gives are the columns it compares. -/
theorem gives_compared (a : Part) :
    Gives predicateCall (fun p => [.column p.use]) a.chars a.compared := by
  have hpredicate := opensWith_predicateCall
  have hplain : ∀ w ∈ operators, ∀ c ∈ w, isPlain c := fun w hw => plain_of_mem_operators hw
  cases a with
  | client => exact hpredicate.gives_passive hplain passive_client
  | finish => exact hpredicate.gives_passive hplain passive_finish
  | select table =>
    exact hpredicate.gives_other hplain (List.all_eq_true.1 rfl) (by decide)
      (passive_quoted table (by decide))
  | call c =>
    cases c with
    | compare method column value =>
      have h := hpredicate.gives_found (e := fun p => [.column p.use]) hplain
        (List.cons_ne_nil _ _) (x := []) (.of_not_mem List.not_mem_nil)
        (best?_predicateCall method.mem_operators column value)
      rw [List.append_nil, use_comparison] at h
      exact h
    | anyOf cs =>
      exact hpredicate.gives_other hplain (List.all_eq_true.1 rfl) (by decide)
        (passive_comparisons cs)

/-- The calls with several comparisons that a part gives are the columns it lists. -/
theorem gives_listed (a : Part) :
    Gives orCall (fun filters => (comparedColumns filters).map fun column =>
      .column ⟨String.ofList column, false, none⟩) a.chars a.listed := by
  have hor := opensWith_orCall
  have hplain : ∀ w ∈ [['o', 'r']], ∀ c ∈ w, isPlain c := plain_of_mem_method rfl
  cases a with
  | client => exact hor.gives_passive hplain passive_client
  | finish => exact hor.gives_passive hplain passive_finish
  | select table =>
    exact hor.gives_other hplain (List.all_eq_true.1 rfl) (by decide)
      (passive_quoted table (by decide))
  | call c =>
    cases c with
    | compare method column value =>
      exact hor.gives_other hplain (plain_of_mem_operators method.mem_operators)
        (not_mem_of_known (by decide) method.mem_operators)
        (passive_arguments column value)
    | anyOf cs =>
      -- The search stops at the quote and passes over the parenthesis behind it.
      have hclose : Passive [')'] := .of_not_mem (by decide)
      have h := hor.gives_found (e := fun filters => (comparedColumns filters).map fun column =>
        .column ⟨String.ofList column, false, none⟩) hplain (List.cons_ne_nil _ _) hclose
        fun rest => best?_orCall (listed_comparisons cs) ([')'] ++ rest)
      simp only [comparedColumns_eq, List.map_map] at h
      simpa [Part.chars, callChars, Part.listed, usesOfCall, Function.comp_def, PlainName.text]
        using h

/-- The events of a module are those of its parts, in order. -/
theorem events_parts (as : List Part) :
    Query.events (as.flatMap Part.chars) = as.flatMap Part.events := by
  have hsize : ∀ a ∈ as, 0 < a.chars.length := by
    intro a _
    cases a with
    | client => exact Nat.zero_lt_succ _
    | select table => exact Nat.zero_lt_succ _
    | finish => exact Nat.zero_lt_succ _
    | call c => cases c <;> exact Nat.zero_lt_succ _
  have htables : tableEvents (as.flatMap Part.chars) =
      placed (fun a : Part => a.chars.length) Part.selected 0 as := by
    rw [← eventsAt_search gives_selected 0 none as]
    exact List.map_eq_flatMap
  have hpredicates : predicateEvents (as.flatMap Part.chars) =
      placed (fun a : Part => a.chars.length) Part.compared 0 as := by
    rw [← eventsAt_search gives_compared 0 none as]
    exact List.map_eq_flatMap
  have hors : orEvents (as.flatMap Part.chars) =
      placed (fun a : Part => a.chars.length) Part.listed 0 as := by
    rw [← eventsAt_search gives_listed 0 none as]
    simp [orEvents, eventsAt, occurrences, Function.comp_def]
  have hsort := mergeSort_placed (f := Part.selected) (g := Part.compared) (h := Part.listed)
    hsize 0
  rw [Query.events, htables, hpredicates, hors]
  exact (congrArg (List.map Prod.snd) hsort).trans (map_snd_placed 0 as)

end SchemaDrift.Chain

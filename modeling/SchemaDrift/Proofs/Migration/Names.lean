import SchemaDrift.Proofs.Migration.Around

/-!
# Names and the objects they denote

An identifier of a migration is spelled as a `Segment`, plain or quoted, and a name as one segment
or as two joined by a dot with blanks around it (`SpelledName`). These are the names that migrations
are read with (`exists_spelledName_iff`).

The object that a name denotes is cut out behind the last dot of the name, without regard to quotes.
So it is the last segment without its quotes if that holds no dot (`objectName_of_dot_not_mem`); of
a quoted segment with a dot only the end is left, with the quote that closes it
(`objectName_of_dot_mem`).
-/

namespace SchemaDrift.Migration

open SchemaDrift.Text SchemaDrift.Scan Phrase

variable {c : Char} {s w rest : List Char} {start : Char → Bool}

/-! ## Blanks and characters of names -/

/-- Whether no number lies in two ranges, one of each list. -/
def disjointRanges (rs rs' : List (Nat × Nat)) : Bool :=
  rs.all fun r => rs'.all fun r' => decide (r.2 < r'.1) || decide (r'.2 < r.1)

/-- No code point is in a range of blanks and in a range of word characters. -/
theorem disjointRanges_blank_word : disjointRanges blankRanges wordRanges := by
  decide +kernel

/-- A word character is not blank. -/
theorem isBlank_of_isWord (h : isWord c) : isBlank c = false := by
  rw [isWord] at h
  split at h
  · exact isBlank_of_isPlain h
  · obtain ⟨r', hr', hc'⟩ := List.any_eq_true.1 h
    rw [isBlank, List.any_eq_false]
    intro r hr hc
    have hapart := List.all_eq_true.1 (List.all_eq_true.1 disjointRanges_blank_word r hr) r' hr'
    simp only [Bool.and_eq_true, Bool.or_eq_true, decide_eq_true_eq] at hc hc' hapart
    omega

/-- A character of a name is not blank. -/
theorem isBlank_of_isNameChar (h : isNameChar c) : isBlank c = false := by
  rcases Bool.or_eq_true_iff.1 h with h | h
  · exact isBlank_of_isWord h
  · rw [beq_iff_eq.1 h]
    decide

/-- A blank belongs to no name. -/
theorem isNameChar_of_isBlank (h : isBlank c) : isNameChar c = false := by
  cases hc : isNameChar c with
  | false => rfl
  | true =>
    rw [isBlank_of_isNameChar hc] at h
    cases h

/-! ## Segments -/

/-- An identifier as it is spelled: plain, beginning with a character of a class, or a text between
double quotes. -/
inductive Segment (start : Char → Bool)
  | plain (first : Char) (more : List Char) (hfirst : start first) (hmore : more.all isNameChar)
  | quoted (content : List Char) (hne : content ≠ []) (hquote : '"' ∉ content)

namespace Segment

/-- The text of a segment. -/
def spelling : Segment start → List Char
  | plain first more _ _ => first :: more
  | quoted content _ _ => '"' :: (content ++ ['"'])

/-- What a segment names: a plain one itself, a quoted one what stands between its quotes. -/
def name : Segment start → List Char
  | plain first more _ _ => first :: more
  | quoted content _ _ => content

/-- Whether a segment is quoted. -/
def isQuoted : Segment start → Bool
  | plain .. => false
  | quoted .. => true

/-- The identifier that a segment spells. -/
def identifier (g : Segment start) : Identifier :=
  ⟨String.ofList g.name, g.isQuoted⟩

/-- A segment ends in front of a text if it is quoted, or if the text does not go on with it. -/
def EndsBefore (g : Segment start) (rest : List Char) : Prop :=
  g.isQuoted = false → ∀ c ∈ rest.head?, isNameChar c = false

/-- Every identifier ends at the end of a text. -/
theorem endsBefore_nil (g : Segment start) : g.EndsBefore [] := by
  rintro - c ⟨⟩

/-- An identifier begins and ends with characters that are not blank. -/
theorem tight (hstart : ∀ c, start c → isBlank c = false) (g : Segment start) :
    Tight g.spelling := by
  cases g with
  | plain first more hfirst hmore =>
    refine ⟨⟨first, rfl, hstart first hfirst⟩, ?_⟩
    cases hlast : more.getLast? with
    | none => exact ⟨first, by simp [spelling, List.getLast?_cons, hlast], hstart first hfirst⟩
    | some c =>
      have hc := List.all_eq_true.1 hmore c (List.mem_of_getLast? hlast)
      exact ⟨c, by simp [spelling, List.getLast?_cons, hlast], isBlank_of_isNameChar hc⟩
  | quoted content =>
    refine ⟨⟨'"', rfl, by decide⟩, '"', ?_, by decide⟩
    rw [spelling, ← List.cons_append, List.getLast?_concat]
    rfl

/-- A segment is read as the identifier that it spells, where it ends. -/
theorem read (hquote : start '"' = false) (g : Segment start) (hend : g.EndsBefore rest) :
    (Migration.identifier start).read (g.spelling ++ rest) = [(g.identifier, rest)] := by
  cases g with
  | plain first more hfirst hmore =>
    have hne : first ≠ '"' := by
      rintro rfl
      rw [hquote] at hfirst
      cases hfirst
    have hmore := List.all_eq_true.1 hmore
    have hstop := hend rfl
    simp [spelling, name, isQuoted, identifier, Migration.identifier, either, quotedName,
      Phrase.char, hne, plainName, oneOf, hfirst, run, takeWhile_append_of_stop hmore hstop,
      dropWhile_append_of_stop hmore hstop]
  | quoted content hcontent hunquoted =>
    have hread : quotedName.read ('"' :: (content ++ '"' :: rest)) = [(content, rest)] := by
      rw [read_quotedName hunquoted, if_neg hcontent]
    simp [spelling, name, isQuoted, identifier, Migration.identifier, read_either, hread,
      plainName, oneOf, hquote]

end Segment

/-- A quoted identifier is read as what stands between its quotes, which is not empty and holds no
quote. -/
theorem exists_of_mem_read_quotedName {r : List Char × List Char} (h : r ∈ quotedName.read s) :
    r.1 ≠ [] ∧ '"' ∉ r.1 ∧ s = '"' :: (r.1 ++ '"' :: r.2) := by
  obtain ⟨a, ha, h⟩ := mem_read_bind.1 h
  obtain ⟨b, hb, h⟩ := mem_read_bind.1 h
  obtain ⟨d, hd, h⟩ := mem_read_bind.1 h
  obtain rfl := mem_read_pure.1 h
  have hne : b.1 ≠ [] := by
    obtain ⟨x, -, hx⟩ := mem_read_bind.1 hb
    obtain ⟨y, -, hy⟩ := mem_read_bind.1 hx
    rw [mem_read_pure.1 hy]
    exact List.cons_ne_nil _ _
  obtain ⟨hcontent, hs⟩ := eq_append_of_mem_read_run1 hb
  refine ⟨hne, fun hmem => ?_, ?_⟩
  · exact absurd (hcontent _ hmem) (by decide)
  · rw [eq_cons_of_mem_read_char ha, hs, eq_cons_of_mem_read_char hd]

/-- A plain identifier is read as its first character and the longest run of name characters behind
it. -/
theorem exists_of_mem_read_plainName {r : List Char × List Char}
    (h : r ∈ (plainName start).read s) :
    ∃ first more, start first ∧ (∀ c ∈ more, isNameChar c) ∧ r.1 = first :: more ∧
      s = r.1 ++ r.2 ∧ ∀ c ∈ r.2.head?, isNameChar c = false := by
  obtain ⟨a, ha, h⟩ := mem_read_bind.1 h
  obtain ⟨b, hb, h⟩ := mem_read_bind.1 h
  obtain rfl := mem_read_pure.1 h
  obtain ⟨hfirst, rfl⟩ := eq_cons_of_mem_read_oneOf ha
  obtain ⟨hmore, hs⟩ := eq_append_of_mem_read_run hb
  refine ⟨a.1, b.1, hfirst, hmore, rfl, congrArg (a.1 :: ·) hs, fun c hc => ?_⟩
  obtain rfl := List.mem_singleton.1 hb
  have hnot := List.head?_dropWhile_not isNameChar a.2
  rw [Option.mem_def.1 hc] at hnot
  simpa using hnot

/-- What is read as an identifier is a segment that ends there. -/
theorem exists_of_mem_read_identifier {r : Identifier × List Char}
    (h : r ∈ (identifier start).read s) :
    ∃ g : Segment start, r.1 = g.identifier ∧ s = g.spelling ++ r.2 ∧ g.EndsBefore r.2 := by
  rcases mem_read_either.1 h with h | h
  · obtain ⟨a, ha, h⟩ := mem_read_bind.1 h
    obtain rfl := mem_read_pure.1 h
    obtain ⟨hne, hquote, hs⟩ := exists_of_mem_read_quotedName ha
    refine ⟨.quoted a.1 hne hquote, rfl, ?_, fun h => absurd h (by simp [Segment.isQuoted])⟩
    simp [Segment.spelling, hs]
  · obtain ⟨a, ha, h⟩ := mem_read_bind.1 h
    obtain rfl := mem_read_pure.1 h
    obtain ⟨first, more, hfirst, hmore, hchars, hs, hstop⟩ := exists_of_mem_read_plainName ha
    refine ⟨.plain first more hfirst (List.all_eq_true.2 hmore), ?_, ?_, fun _ => hstop⟩
    · rw [hchars]
      rfl
    · rw [hs, hchars]
      rfl

/-! ## Names -/

/-- A segment of a name, where the case of letters is ignored. -/
abbrev NameSegment := Segment isFoldedNameStart

/-- No plain identifier begins with a quote. -/
theorem isFoldedNameStart_quote : isFoldedNameStart '"' = false := by
  decide

/-- A segment of a name begins and ends with characters that are not blank. -/
theorem NameSegment.tight (g : NameSegment) : Tight g.spelling :=
  Segment.tight (fun _ hc => isBlank_of_isNameChar (isNameChar_of_isFoldedNameStart hc)) g

/-- A segment is read in one way, where it ends. -/
theorem read_segment (g : NameSegment) (hend : g.EndsBefore rest) :
    segment.read (g.spelling ++ rest) = [(g.spelling, rest)] := by
  rw [segment, read_spelled, g.read isFoldedNameStart_quote hend, List.map_singleton, take_before]

/-- A segment that is the whole text is read in one way. -/
theorem read_segment_whole (g : NameSegment) : segment.read g.spelling = [(g.spelling, [])] := by
  have hread := read_segment g g.endsBefore_nil
  rwa [List.append_nil] at hread

/-- What is read as a segment is spelled like one. -/
theorem exists_of_mem_read_segment {r : List Char × List Char} (h : r ∈ segment.read s) :
    ∃ g : NameSegment, r.1 = g.spelling ∧ s = g.spelling ++ r.2 := by
  obtain ⟨a, ha, rfl⟩ := List.mem_map.1 h
  obtain ⟨g, -, rfl, -⟩ := exists_of_mem_read_identifier ha
  exact ⟨g, take_before g.spelling a.2, rfl⟩

/-- A name as it is spelled: a segment, or two joined by a dot with blanks around it. -/
inductive SpelledName
  | bare (last : NameSegment)
  | qualified (schema : NameSegment) (before after : List Char) (hbefore : before.all isBlank)
      (hafter : after.all isBlank) (last : NameSegment)

namespace SpelledName

/-- The text of a name. -/
def spelling : SpelledName → List Char
  | bare last => last.spelling
  | qualified schema before after _ _ last =>
    schema.spelling ++ (before ++ '.' :: (after ++ last.spelling))

/-- The segment of a name that names the object itself. -/
def last : SpelledName → NameSegment
  | bare last => last
  | qualified _ _ _ _ _ last => last

/-- A name is read whole. -/
theorem mem_read (n : SpelledName) : (n.spelling, []) ∈ qualifiedName.read n.spelling := by
  have hspelled : ∀ v, (v, []) ∈ (do let _ ← segment; Phrase.optional do
        blanks; Phrase.char '.'; blanks; segment : Phrase (Option (List Char))).read n.spelling →
      (n.spelling, []) ∈ qualifiedName.read n.spelling := by
    intro v hv
    refine List.mem_map.2 ⟨(v, []), hv, ?_⟩
    simp only [List.length_nil, Nat.sub_zero, List.take_length]
  cases n with
  | bare g =>
    refine hspelled none (mem_read_bind.2 ⟨(g.spelling, []), ?_, ?_⟩)
    · rw [spelling, read_segment_whole]
      exact List.mem_singleton_self _
    · exact mem_read_either.2 (.inr (mem_read_pure.2 rfl))
  | qualified schema before after hbefore hafter last =>
    rw [List.all_eq_true] at hbefore hafter
    have hend : schema.EndsBefore (before ++ '.' :: (after ++ last.spelling)) := by
      rintro - c hc
      cases before with
      | nil =>
        obtain rfl := Option.some.inj hc
        decide
      | cons b before =>
        obtain rfl := Option.some.inj hc
        exact isNameChar_of_isBlank (hbefore b List.mem_cons_self)
    have hdot : blanks.read (before ++ '.' :: (after ++ last.spelling)) =
        [((), '.' :: (after ++ last.spelling))] :=
      read_blanks_of_stop hbefore (forall_head?_cons (by decide) _)
    have htight := last.tight.head?_append []
    rw [List.append_nil] at htight
    have hblanks : blanks.read (after ++ last.spelling) = [((), last.spelling)] :=
      read_blanks_of_stop hafter htight
    refine hspelled (some last.spelling) (mem_read_bind.2
      ⟨(schema.spelling, before ++ '.' :: (after ++ last.spelling)), ?_, ?_⟩)
    · rw [spelling, read_segment schema hend]
      exact List.mem_singleton_self _
    · refine mem_read_either.2 (.inl (mem_read_bind.2
        ⟨(last.spelling, []), ?_, mem_read_pure.2 rfl⟩))
      simp only [read_bind, hdot, Script.read_char, hblanks, read_segment_whole,
        List.flatMap_cons, List.flatMap_nil, List.append_nil, List.mem_singleton]

end SpelledName

/-- What is read as a name is spelled as one. -/
theorem exists_of_mem_read_qualifiedName {r : List Char × List Char}
    (h : r ∈ qualifiedName.read s) : ∃ n : SpelledName, r.1 = n.spelling := by
  obtain ⟨a, ha, rfl⟩ := List.mem_map.1 h
  obtain ⟨b, hb, hoptional⟩ := mem_read_bind.1 ha
  obtain ⟨g, -, hs⟩ := exists_of_mem_read_segment hb
  rcases mem_read_either.1 hoptional with hsome | hnone
  · obtain ⟨d, hd, hpure⟩ := mem_read_bind.1 hsome
    obtain rfl := mem_read_pure.1 hpure
    obtain ⟨x, hx, hd⟩ := mem_read_bind.1 hd
    obtain ⟨y, hy, hd⟩ := mem_read_bind.1 hd
    obtain ⟨z, hz, hd⟩ := mem_read_bind.1 hd
    obtain ⟨before, hbefore, htail⟩ := eq_append_of_mem_read_blanks hx
    obtain ⟨after, hafter, hbehind⟩ := eq_append_of_mem_read_blanks hz
    obtain ⟨last, -, hlast⟩ := exists_of_mem_read_segment hd
    refine ⟨.qualified g before after (List.all_eq_true.2 hbefore) (List.all_eq_true.2 hafter) last,
      ?_⟩
    have htext : s = (g.spelling ++ (before ++ '.' :: (after ++ last.spelling))) ++ d.2 := by
      rw [hs, htail, eq_cons_of_mem_read_char hy, hbehind, hlast]
      simp
    rw [htext]
    exact take_before _ _
  · obtain rfl := mem_read_pure.1 hnone
    rw [hs]
    exact ⟨.bare g, take_before _ _⟩

/-- The names that are read off texts are those that are spelled as names. -/
theorem exists_spelledName_iff {name : List Char} :
    (∃ s rest, (name, rest) ∈ qualifiedName.read s) ↔ ∃ n : SpelledName, n.spelling = name := by
  constructor
  · rintro ⟨s, rest, h⟩
    obtain ⟨n, hn⟩ := exists_of_mem_read_qualifiedName h
    exact ⟨n, hn.symm⟩
  · rintro ⟨n, rfl⟩
    exact ⟨n.spelling, [], n.mem_read⟩

/-! ## The text behind the last dot -/

/-- The characters of a text without a dot are not dots, in reverse order too. -/
theorem ne_dot_of_mem_reverse (hw : '.' ∉ w) : ∀ c ∈ w.reverse, decide (c ≠ '.') = true := by
  intro c hc
  rw [decide_eq_true_eq]
  rintro rfl
  exact hw (List.mem_reverse.1 hc)

/-- Behind the last dot stands what has no dot. -/
theorem afterLastDot_append (x : List Char) (hw : '.' ∉ w) : afterLastDot (x ++ '.' :: w) = w := by
  have hreverse : (x ++ '.' :: w).reverse = w.reverse ++ '.' :: x.reverse := by simp
  rw [afterLastDot, hreverse, takeWhile_append_of_stop (ne_dot_of_mem_reverse hw)
    (by rintro c ⟨⟩; rfl), List.reverse_reverse]

/-- A text without a dot is what stands behind its last dot. -/
theorem afterLastDot_of_not_mem (hw : '.' ∉ w) : afterLastDot w = w := by
  have htake : (w.reverse ++ []).takeWhile (fun c => decide (c ≠ '.')) = w.reverse :=
    takeWhile_append_of_stop (ne_dot_of_mem_reverse hw) (by rintro c ⟨⟩)
  rw [List.append_nil] at htake
  rw [afterLastDot, htake, List.reverse_reverse]

/-- A text with a dot ends with its last dot and what follows it. -/
theorem exists_afterLastDot (h : '.' ∈ s) :
    ∃ x, s = x ++ '.' :: afterLastDot s ∧ '.' ∉ afterLastDot s := by
  obtain ⟨x, w, rfl, hw⟩ : ∃ x w, s = x ++ '.' :: w ∧ '.' ∉ w := by
    obtain ⟨u, v, hs, hu⟩ := List.eq_append_cons_of_mem (List.mem_reverse.2 h)
    refine ⟨v.reverse, u.reverse, ?_, fun hmem => hu (List.mem_reverse.1 hmem)⟩
    rw [← List.reverse_reverse s, hs]
    simp
  rw [afterLastDot_append x hw]
  exact ⟨x, rfl, hw⟩

/-! ## Objects -/

/-- Blanks hold no dot. -/
theorem dot_not_mem_of_isBlank (h : ∀ c ∈ w, isBlank c) : '.' ∉ w :=
  fun hmem => absurd (h '.' hmem) (by decide)

/-- A quote at the end is not trimmed. -/
theorem trim_concat_quote (w : List Char) : trim (w ++ ['"']) = trimStart w ++ ['"'] := by
  have hstart : trimStart (w ++ ['"']) = trimStart w ++ ['"'] := by
    rw [trimStart, List.dropWhile_append]
    split
    · next h => rw [trimStart, List.isEmpty_iff.1 h]; rfl
    · rfl
  have hquote : isBlank '"' = false := by decide
  rw [trim, hstart, trimEnd, List.reverse_concat, List.dropWhile_cons_of_neg (by simp [hquote]),
    List.reverse_cons, List.reverse_reverse]

/-- A text with a quote at its end only keeps it. -/
theorem unquote_concat_quote (hw : '"' ∉ w) : unquote (w ++ ['"']) = trimStart w ++ ['"'] := by
  have hnone : betweenQuotes? (trimStart w ++ ['"']) = none := by
    cases h : trimStart w with
    | nil => rfl
    | cons c t =>
      have hc : c ≠ '"' := by
        rintro rfl
        exact hw ((List.dropWhile_suffix _).subset (h ▸ List.mem_cons_self))
      simp [betweenQuotes?, hc]
  rw [unquote, trim_concat_quote, hnone]
  rfl

/-- A segment with blanks before it is trimmed and loses its quotes. -/
theorem NameSegment.unquote_padded (g : NameSegment) {b : List Char} (hb : ∀ c ∈ b, isBlank c) :
    unquote (b ++ g.spelling) = g.name := by
  have htrim := g.tight.trim_padded hb (List.forall_mem_nil _)
  rw [List.append_nil] at htrim
  rw [unquote, htrim]
  cases g with
  | plain first more hfirst hmore =>
    have hne : first ≠ '"' := by
      rintro rfl
      rw [isFoldedNameStart_quote] at hfirst
      cases hfirst
    simp [Segment.spelling, Segment.name, betweenQuotes?, hne]
  | quoted content => simp [Segment.spelling, Segment.name, betweenQuotes?]

/-- A segment whose name holds no dot is spelled without one. -/
theorem NameSegment.dot_not_mem_spelling {g : NameSegment} (h : '.' ∉ g.name) :
    '.' ∉ g.spelling := by
  cases g with
  | plain => exact h
  | quoted content => simpa [Segment.spelling, Segment.name] using h

/-- Only a quoted segment holds a dot. -/
theorem NameSegment.exists_of_dot_mem {g : NameSegment} (h : '.' ∈ g.name) :
    '"' ∉ g.name ∧ g.spelling = '"' :: (g.name ++ ['"']) := by
  cases g with
  | plain first more hfirst hmore =>
    rcases List.mem_cons.1 h with rfl | h
    · exact absurd hfirst (by decide)
    · exact absurd (List.all_eq_true.1 hmore _ h) (by decide +kernel)
  | quoted content hne hquote => exact ⟨hquote, rfl⟩

/-- The text behind the last dot of a name, where its last segment holds none: the segment, with the
blanks before it. -/
theorem SpelledName.exists_afterLastDot {n : SpelledName} (h : '.' ∉ n.last.name) :
    ∃ b, (∀ c ∈ b, isBlank c) ∧ afterLastDot n.spelling = b ++ n.last.spelling := by
  have hlast := NameSegment.dot_not_mem_spelling h
  cases n with
  | bare g => exact ⟨[], List.forall_mem_nil _, afterLastDot_of_not_mem hlast⟩
  | qualified schema before after hbefore hafter g =>
    have hafter := List.all_eq_true.1 hafter
    refine ⟨after, hafter, ?_⟩
    rw [spelling, ← List.append_assoc]
    refine afterLastDot_append _ fun hmem => ?_
    rcases List.mem_append.1 hmem with hmem | hmem
    · exact dot_not_mem_of_isBlank hafter hmem
    · exact hlast hmem

/-- A name denotes what its last segment names, if that holds no dot. -/
theorem objectName_of_dot_not_mem {n : SpelledName} (h : '.' ∉ n.last.name) :
    objectName n.spelling = n.last.name := by
  obtain ⟨b, hb, hdot⟩ := SpelledName.exists_afterLastDot h
  rw [objectName, hdot, n.last.unquote_padded hb]

/-- Of a quoted segment with a dot, the end behind its last dot is left, and the closing quote. -/
theorem objectName_of_dot_mem {n : SpelledName} (h : '.' ∈ n.last.name) :
    objectName n.spelling = trimStart (afterLastDot n.last.name) ++ ['"'] := by
  obtain ⟨hquote, hspelling⟩ := NameSegment.exists_of_dot_mem h
  obtain ⟨x, hname, hdot⟩ := exists_afterLastDot h
  obtain ⟨y, hy⟩ : ∃ y, n.spelling = y ++ n.last.spelling := by
    cases n with
    | bare g => exact ⟨[], rfl⟩
    | qualified schema before after hbefore hafter g =>
      exact ⟨schema.spelling ++ (before ++ '.' :: after), by simp [SpelledName.spelling,
        SpelledName.last]⟩
  have hend : n.spelling = (y ++ '"' :: x) ++ '.' :: (afterLastDot n.last.name ++ ['"']) := by
    rw [hy, hspelling]
    nth_rewrite 1 [hname]
    simp
  have hclean : '"' ∉ afterLastDot n.last.name := fun hmem => hquote (by
    rw [hname]
    exact List.mem_append_right _ (List.mem_cons_of_mem _ hmem))
  rw [objectName, hend, afterLastDot_append _ (by simpa using hdot), unquote_concat_quote hclean]

/-- The names that are accepted are those that are spelled as names. Each denotes what its last
segment names, quoted or not, unless a dot stands between the quotes: then it denotes the end of the
segment behind the last dot, without the blanks before it and with the closing quote. -/
theorem objectName_of_accepted (name : List Char) :
    ((∃ s rest, (name, rest) ∈ qualifiedName.read s) ↔ ∃ n : SpelledName, n.spelling = name) ∧
    ∀ n : SpelledName, n.spelling = name →
      ('.' ∉ n.last.name → objectName name = n.last.name) ∧
      ('.' ∈ n.last.name → objectName name = trimStart (afterLastDot n.last.name) ++ ['"']) := by
  refine ⟨exists_spelledName_iff, ?_⟩
  rintro n rfl
  exact ⟨objectName_of_dot_not_mem, objectName_of_dot_mem⟩

/-- A dot and blanks in a quoted schema, blanks around the dot, and a blank in the quoted table. -/
def quotedTable : SpelledName :=
  .qualified (.quoted "my. app".toList (by decide) (by decide)) [' '] ['\n'] (by decide) (by decide)
    (.quoted " Order items".toList (by decide) (by decide))

/-- A dot and blanks inside quotes before the last segment, and blanks around the dot between them,
do not change the name. -/
theorem objectName_quotedTable :
    quotedTable.spelling = "\"my. app\" .\n\" Order items\"".toList ∧
      '.' ∉ quotedTable.last.name ∧
      objectName "\"my. app\" .\n\" Order items\"".toList = " Order items".toList := by
  have hspelling : quotedTable.spelling = "\"my. app\" .\n\" Order items\"".toList := by decide
  have hdot : '.' ∉ quotedTable.last.name := by decide
  exact ⟨hspelling, hdot, ((objectName_of_accepted _).2 quotedTable hspelling).1 hdot⟩

/-- A dot between quotes is taken for the one that ends the name of a schema. -/
theorem objectName_dot_in_quotes : ∃ n : SpelledName, n.spelling = "\"a.b\"".toList ∧
    n.last.name = "a.b".toList ∧ objectName n.spelling = "b\"".toList ∧
      objectName n.spelling ≠ n.last.name :=
  ⟨.bare (.quoted "a.b".toList (by decide) (by decide)), by decide, by decide, by decide,
    by decide⟩

end SchemaDrift.Migration

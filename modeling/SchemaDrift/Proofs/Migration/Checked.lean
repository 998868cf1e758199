import SchemaDrift.Proofs.Migration.ClauseReferences
import SchemaDrift.Proofs.Scan.Checked

/-!
# Reading migrations in checked steps

Migrations are read once more, by offsets of bytes and in checked steps: comments are blanked byte
by byte, the bodies of tables, the actions of alterations and the clauses before references are
slices, bodies and actions are split at the byte of a comma, and the search for the beginning of a
clause takes checked differences of its depth. No step fails, and the schema is the one that is read
by characters (`checkedExtract_eq`).
-/

namespace SchemaDrift.Migration

open SchemaDrift.Text SchemaDrift.Scan

variable {sql : List Char}

/-! ## Table definitions -/

/-- What the body of a table says, in checked steps. -/
def checkedBodyFacts (table : String) (body : List Char) : Option (List Fact) :=
  if (trim body).isEmpty then some []
  else (commaParts? .sql body).map fun clauses =>
    clauses.flatMap fun clause => clauseFacts table (trim clause)

/-- No step fails on a body, and it says what the reading by characters says. -/
theorem checkedBodyFacts_eq (table : String) (body : List Char) :
    checkedBodyFacts table body = some (bodyFacts table body) := by
  rw [checkedBodyFacts, bodyFacts, commaParts?_eq]
  split <;> rfl

/-- What a table definition says, in checked steps. -/
def checkedDefinitionFacts (sql : List Char) (o : Occurrence (List Char)) : Option (List Fact) :=
  (bodyBehind? .sql sql (byteSize (sql.take o.stop))).bind fun body? =>
    match body? with
    | none => some [.notice (.unbalancedBody (nameOf o.value)), .table (nameOf o.value)]
    | some body => (checkedBodyFacts (nameOf o.value) body).map (.table (nameOf o.value) :: ·)

/-- No step fails on a table definition, and it says what the reading by characters says. -/
theorem checkedDefinitionFacts_eq {o : Occurrence (List Char)} (h : o ∈ tableHeads sql) :
    checkedDefinitionFacts sql o = some (definitionFacts (nameOf o.value) o.rest) := by
  obtain ⟨x, hsql, hstop, -⟩ := exists_of_mem_tableHeads h
  have hcloser : closerOf? '(' = some ')' := rfl
  rw [checkedDefinitionFacts, bodyBehind?_take hcloser hsql hstop, Option.bind_some,
    definitionFacts]
  cases enclosed? .sql ('(' :: o.rest) with
  | none => rfl
  | some body => simp only [checkedBodyFacts_eq, Option.map_some]

/-- What the table definitions in a text say, in checked steps. -/
def checkedCreateFacts (sql : List Char) : Option (List Fact) :=
  gather? (checkedDefinitionFacts sql) (tableHeads sql)

/-- No step fails on the table definitions of a text, and they say what the reading by characters
says. -/
theorem checkedCreateFacts_eq (sql : List Char) :
    checkedCreateFacts sql = some (createFacts sql) :=
  gather?_eq_some fun _ => checkedDefinitionFacts_eq

/-! ## Table alterations -/

/-- The head of a table alteration is a local phrase. -/
theorem local_alterHead : Local alterHead :=
  (local_keywords _).bind fun _ => (local_keywords _).optional.bind fun _ =>
    (local_keywords _).optional.bind fun _ => local_qualifiedName.bind fun _ =>
    local_blanks1.bind fun _ => local_pure _

/-- The actions of a table alteration begin where its head stops. -/
theorem exists_of_mem_alterHeads {o : Occurrence (List Char)} (h : o ∈ alterHeads sql) :
    ∃ x, sql = x ++ o.rest ∧ o.stop = x.length := by
  obtain ⟨u, v, rfl, hstart, hread, hstop⟩ := exists_of_mem_search h
  obtain ⟨w, rfl, -⟩ := local_alterHead v _ (exists_of_best?_atWordStart hread).2
  refine ⟨u ++ w, by simp, ?_⟩
  simp only [List.length_append] at hstop ⊢
  omega

/-- What the table alterations in a text say, in checked steps. -/
def checkedAlterFacts (sql : List Char) : Option (List Fact) :=
  gather? (fun o =>
    (statementAt? .sql sql (byteSize (sql.take o.stop))).bind fun actions =>
      (commaParts? .sql actions).map fun parts =>
        parts.flatMap fun action => actionFacts (nameOf o.value) (trim action)) (alterHeads sql)

/-- No step fails on the table alterations of a text, and they say what the reading by characters
says. -/
theorem checkedAlterFacts_eq (sql : List Char) :
    checkedAlterFacts sql = some (alterFacts sql) := by
  refine gather?_eq_some fun o ho => ?_
  obtain ⟨x, hsql, hstop⟩ := exists_of_mem_alterHeads ho
  have hhead : sql.take o.stop = x := by
    rw [hsql, hstop, List.take_left]
  have hactions : statementAt? .sql sql (byteSize x) = some (statement .sql o.rest) := by
    conv => lhs; rw [hsql]
    exact statementAt?_eq .sql x o.rest
  rw [hhead, hactions, Option.bind_some, commaParts?_eq, Option.map_some]

/-! ## References -/

/-- Where the clause begins that ends a text, given the reversed bytes of the text. The search fails
if its depth falls below zero. -/
def clauseStart? : (depth : Nat) → List Char → Option Nat
  | _, [] => some 0
  | depth, c :: s =>
    if c = ')' then clauseStart? (depth + 1) s
    else if c = '(' then
      if depth = 0 then some (s.length + 1)
      else (minus? depth 1).bind fun less => clauseStart? less s
    else if (c = ',' ∨ c = ';') ∧ depth = 0 then some (s.length + 1)
    else clauseStart? depth s

/-- The depth never falls below zero, and the search ends where the clause begins. -/
theorem clauseStart?_eq (depth : Nat) (s : List Char) :
    clauseStart? depth s = some (s.length - (clauseBackwards depth s).length) := by
  induction s generalizing depth with
  | nil => rfl
  | cons c s ih =>
    have hkeep : ∀ n, (c :: s).length - (c :: clauseBackwards n s).length =
        s.length - (clauseBackwards n s).length :=
      fun n => Nat.add_sub_add_right _ _ _
    rw [clauseStart?, clauseBackwards.eq_def]
    dsimp only
    by_cases hclose : c = ')'
    · rw [if_pos hclose, if_pos hclose, ih, hkeep]
    rw [if_neg hclose, if_neg hclose]
    by_cases hopen : c = '('
    · rw [if_pos hopen, if_pos hopen]
      cases depth with
      | zero => rfl
      | succ n => rw [if_neg (Nat.succ_ne_zero n), minus?_succ, Option.bind_some, ih, hkeep]
    rw [if_neg hopen, if_neg hopen]
    split
    · rfl
    · rw [ih, hkeep]

/-- A delimiter is an ASCII character. -/
theorem isDelimiter_of_not_isAscii {c : Char} (h : isAscii c = false) : isDelimiter c = false := by
  have hne : ∀ e, isAscii e → (c == e) = false := fun e he =>
    beq_false_of_ne fun heq => by rw [heq, he] at h; cases h
  rw [isDelimiter, hne _ (by decide), hne _ (by decide), hne _ (by decide), hne _ (by decide)]
  rfl

/-- The clause at the end of the bytes of a text is in the bytes of the clause. -/
theorem clauseBackwards_symbols (depth : Nat) (s : List Char) :
    clauseBackwards depth (symbols s.reverse).reverse =
      (symbols (clauseBackwards depth s).reverse).reverse := by
  induction s generalizing depth with
  | nil => rfl
  | cons c s ih =>
    rw [List.reverse_cons, symbols_append, List.reverse_append]
    cases hc : isAscii c with
    | true =>
      have hbyte := symbols_of_isAscii hc
      rw [hbyte, List.reverse_singleton, List.singleton_append]
      rcases clauseBackwards_step depth c with hend | ⟨n, hgo⟩
      · rw [hend, hend]
        rfl
      · rw [hgo, hgo, ih, List.reverse_cons, symbols_append, hbyte, List.reverse_append]
        rfl
    | false =>
      have hplain : (symbols [c]).any isDelimiter = false := by
        rw [List.any_eq_false]
        intro b hb
        rw [isDelimiter_of_not_isAscii (isAscii_of_mem_symbols hc hb)]
        exact Bool.false_ne_true
      have hself := stepBack?_of_not_delimiter (isDelimiter_of_not_isAscii hc) depth
      rw [clauseBackwards_of_depthBefore? (depthBefore?_of_not_delimiter hplain depth), ih,
        clauseBackwards_of_stepBack? hself, List.reverse_cons, symbols_append, List.reverse_append]

/-- The search for the beginning of a clause takes an end of the text before it. -/
theorem prefix_of_clauseBackwards (depth : Nat) (s : List Char) :
    clauseBackwards depth s <+: s := by
  induction s generalizing depth with
  | nil => exact List.prefix_rfl
  | cons c s ih =>
    rcases clauseBackwards_step depth c with hend | ⟨n, hgo⟩
    · rw [hend]
      exact List.nil_prefix
    · rw [hgo]
      exact (List.prefix_cons_inj c).2 (ih n)

/-- The clause that ends at an offset, in checked steps. -/
def checkedClauseBefore (sql : List Char) (stop : Nat) : Option (List Char) :=
  (clauseStart? 0 ((symbols sql).take stop).reverse).bind fun start =>
    (slice? sql start stop).map trim

/-- No step fails on the search for a clause, and the clause is the one that is found by
characters. -/
theorem checkedClauseBefore_eq (before rest : List Char) :
    checkedClauseBefore (before ++ rest) (byteSize before) = some (clauseBefore before) := by
  obtain ⟨x, hx⟩ : (clauseBackwards 0 before.reverse).reverse <:+ before :=
    List.reverse_prefix.1 (by simpa using prefix_of_clauseBackwards 0 before.reverse)
  have hbytes : (symbols (before ++ rest)).take (byteSize before) = symbols before := by
    rw [symbols_append]
    exact List.take_left' (length_symbols_eq before)
  have hstart : clauseStart? 0 (symbols before).reverse = some (byteSize x) := by
    have hclause := clauseBackwards_symbols 0 before.reverse
    rw [List.reverse_reverse] at hclause
    have hsize := congrArg byteSize hx
    rw [byteSize_append] at hsize
    rw [clauseStart?_eq, hclause, List.length_reverse, List.length_reverse, length_symbols_eq,
      length_symbols_eq]
    exact congrArg some (by omega)
  have hslice : slice? (before ++ rest) (byteSize x) (byteSize before) =
      some (clauseBackwards 0 before.reverse).reverse :=
    slice?_eq_some_iff.2 ⟨x, rest, by rw [hx], rfl, by rw [hx]⟩
  rw [checkedClauseBefore, hbytes, hstart, Option.bind_some, hslice]
  rfl

/-- What the references outside alterations say, in checked steps. -/
def checkedInlineFacts (sql : List Char) : Option (List Fact) :=
  gather? (fun o => (checkedClauseBefore sql (byteSize (sql.take o.start))).map fun clause =>
    edgeFacts (leadingIdentifier? clause) (tableBefore? (tableHeads sql) o.start) o.value)
    (looseReferences sql)

/-- No step fails on the references of a text, and they say what the reading by characters says. -/
theorem checkedInlineFacts_eq (sql : List Char) :
    checkedInlineFacts sql = some (inlineFacts sql) := by
  refine gather?_eq_some fun o _ => ?_
  have hclause := checkedClauseBefore_eq (sql.take o.start) (sql.drop o.start)
  rw [List.take_append_drop] at hclause
  rw [hclause]
  rfl

/-! ## Whole migrations -/

/-- What a text without comments says, in checked steps. -/
def checkedSqlFacts (sql : List Char) : Option (List Fact) :=
  (checkedCreateFacts sql).bind fun created =>
    (checkedAlterFacts sql).bind fun altered =>
      (checkedInlineFacts sql).map fun references =>
        created ++ altered ++ dropFacts sql ++ references

/-- What a migration says, in checked steps. Its bytes with the comments blanked have to be those of
a text. -/
def checkedFacts (migration : Source) : Option (List Fact) :=
  (ofByteSymbols? (blankedBytes .sql migration.text)).bind fun sql => checkedSqlFacts sql.toList

/-- No step fails on a migration, and it says what the reading by characters says. -/
theorem checkedFacts_eq (migration : Source) :
    checkedFacts migration = some (facts migration) := by
  rw [checkedFacts, blankedBytes_eq, ofByteSymbols?_symbols, Option.bind_some,
    String.toList_ofList, checkedSqlFacts, checkedCreateFacts_eq, Option.bind_some,
    checkedAlterFacts_eq, Option.bind_some, checkedInlineFacts_eq, Option.map_some]
  rfl

/-- The schema that migrations build up, in checked steps. -/
def checkedExtract (migrations : List Source) : Option (Extraction Schema) :=
  (migrations.mapM fun m => (checkedFacts m).map (m.name, ·)).map fun found =>
    { snapshot := Schema.ofFacts (found.flatMap Prod.snd)
      diagnostics := found.flatMap fun entry => skipped entry.1 entry.2 }

/-- No step fails on migrations, and the schema is that of the reading by characters. -/
theorem checkedExtract_eq (migrations : List Source) :
    checkedExtract migrations = some (extract migrations) := by
  have hfound : (migrations.mapM fun m => (checkedFacts m).map (m.name, ·)) =
      some (migrations.map fun m => (m.name, facts m)) :=
    mapM_eq_some fun m _ => by rw [checkedFacts_eq, Option.map_some]
  rw [checkedExtract, hfound, Option.map_some, List.flatMap_map, List.flatMap_map]
  rfl

end SchemaDrift.Migration

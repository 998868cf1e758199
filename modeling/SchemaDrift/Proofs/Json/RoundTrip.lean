import Mathlib.Tactic.IntervalCases
import SchemaDrift.Json.Decode
import SchemaDrift.Json.Reader
import SchemaDrift.Json.Writer
import SchemaDrift.Proofs.Collection.Union
import SchemaDrift.Proofs.Text.Runs

/-!
# Reading back what was written

The text of a JSON value, on one line or on many, is read back as that value (`ofText?_write`). The
proof goes by tokens: `tokens` lists the tokens of a value, `tokens_write` says that the written
text falls into them, whatever the indentation, and `readValue_tokens` that the reader makes the
value of them with the depth it has at hand.

Numbers that keep their spelling are left out (`Plain`): a spelling may be any text, and only some
texts are numbers.

A list, a set or a map is read back from its JSON value if its elements are: the element decoder
need only undo the element encoder (`asList?_array`, `asMap?_object`). Sets and maps are written in
order, so what is put in order again on reading is what was written.
-/

namespace SchemaDrift.Json

open SchemaDrift.Text (takeWhile_append_of_stop dropWhile_append_of_stop)

/-- A value in which every number is a natural number. -/
inductive Plain : Json → Prop
  | null : Plain .null
  | bool (b : Bool) : Plain (.bool b)
  | nat (n : Nat) : Plain (.nat n)
  | string (s : String) : Plain (.string s)
  | array {xs : List Json} : (∀ x ∈ xs, Plain x) → Plain (.array xs)
  | object {ms : List (String × Json)} : (∀ m ∈ ms, Plain m.2) → Plain (.object ms)

/-! ## Strings -/

/-- A hexadecimal digit is read back as its value. -/
theorem hexValue?_hexDigit {n : Nat} (h : n < 16) : hexValue? (hexDigit n) = some n := by
  interval_cases n <;> rfl

/-- A control is read back from the two digits of its code. -/
theorem hexUnit?_control {n : Nat} (h : n < 0x20) :
    hexUnit? '0' '0' (hexDigit (n / 16)) (hexDigit (n % 16)) = some n := by
  have hzero : hexValue? '0' = some 0 := rfl
  simp only [hexUnit?, hzero, hexValue?_hexDigit (show n / 16 < 16 by omega),
    hexValue?_hexDigit (show n % 16 < 16 by omega), Option.bind_eq_bind, Option.bind_some,
    Option.pure_def, Option.some.injEq]
  omega

/-- An escaped character is read back as its code. -/
theorem readCodes_escapeChar (c : Char) (s : List Char) :
    readCodes (escapeChar c ++ s) = (readCodes s).map fun r => (c.toNat :: r.1, r.2) := by
  rw [escapeChar]
  split
  · next h => subst h; simp [readCodes, escaped?]
  split
  · next h => subst h; simp [readCodes, escaped?]
  split
  · next h => subst h; simp [readCodes, escaped?]
  split
  · next h => subst h; simp [readCodes, escaped?]
  split
  · next h => subst h; simp [readCodes, escaped?]
  split
  · next h => subst h; simp [readCodes, escaped?]
  split
  · next h => subst h; simp [readCodes, escaped?]
  split
  · next h => simp [readCodes, hexUnit?_control h]
  · next hq hb _ _ _ _ _ hc =>
    simp [readCodes, hq, hb, hc]

/-- Escaped characters before a closing quote are read back as their codes. -/
theorem readCodes_flatMap_escapeChar (s rest : List Char) :
    readCodes (s.flatMap escapeChar ++ '"' :: rest) = some (s.map Char.toNat, rest) := by
  induction s with
  | nil => simp [readCodes]
  | cons c s ih => rw [List.flatMap_cons, List.append_assoc, readCodes_escapeChar, ih]; rfl

/-- The code of a character is no half of a pair. -/
theorem toNat_not_half (c : Char) : ¬ (0xD800 ≤ c.toNat ∧ c.toNat < 0xE000) := by
  have hv : c.toNat < 0xD800 ∨ 0xDFFF < c.toNat ∧ c.toNat < 0x110000 := c.valid
  omega

/-- The codes of characters hold no half of a pair, so they are joined to the same characters. -/
theorem joinHalves_map_toNat (s : List Char) : joinHalves (s.map Char.toNat) = some s := by
  induction s with
  | nil => rfl
  | cons c s ih =>
    have hc := toNat_not_half c
    cases s with
    | nil => simp [joinHalves, hc, Char.ofNat_toNat]
    | cons d s =>
      rw [List.map_cons, List.map_cons, joinHalves, if_neg (by omega), if_neg (by omega),
        ← List.map_cons, ih, Char.ofNat_toNat]
      rfl

/-- A string that was written is read back as one token. -/
theorem readToken_writeString (s : String) (rest : List Char) :
    readToken (writeString s ++ rest) = some (.string s, rest) := by
  have hs : readString (s.toList.flatMap escapeChar ++ '"' :: rest) = some (s.toList, rest) := by
    rw [readString, readCodes_flatMap_escapeChar, Option.bind_some, joinHalves_map_toNat]
    rfl
  simp [writeString, readToken, isMark, hs]

/-! ## Numbers -/

/-- The decimal digits of a number have its value. -/
theorem ofDigits_toDigits (n : Nat) : ofDigits (Nat.toDigits 10 n) = n := by
  have h : ofDigits (Nat.toDigits 10 n) = Nat.ofDigitChars 10 (Nat.toDigits 10 n) 0 := by
    rw [ofDigits, Nat.ofDigitChars_eq_foldl]
    congr
    funext m c
    rw [Nat.mul_comm]
    rfl
  rw [h, Nat.ofDigitChars_ten_toDigits]

/-- A positive number is not written with a zero in front. -/
theorem head?_toDigits_ne_zero {n : Nat} (h : 0 < n) : (Nat.toDigits 10 n).head? ≠ some '0' := by
  induction n using Nat.strongRecOn with
  | ind n ih =>
    rcases Nat.lt_or_ge n 10 with hlt | hge
    · rw [Nat.toDigits_of_lt_base hlt]
      interval_cases n <;> decide
    · have hhead := ih (n / 10) (by omega) (by omega)
      rw [Nat.toDigits_of_base_le (by decide) hge]
      cases hd : Nat.toDigits 10 (n / 10) with
      | nil => exact absurd hd Nat.toDigits_ne_nil
      | cons c s => simpa [hd] using hhead

/-- The decimal digits of a number are digits. -/
theorem isDigit_of_mem_toDigits {n : Nat} {c : Char} (h : c ∈ Nat.toDigits 10 n) : c.isDigit :=
  Nat.isDigit_of_mem_toDigits (by decide) (by decide) h

/-- The decimal digits of a number spell a natural number, without a leading zero. -/
theorem isNatural_toDigits (n : Nat) : isNatural (Nat.toDigits 10 n) = true := by
  have hall : (Nat.toDigits 10 n).all Char.isDigit = true :=
    List.all_eq_true.2 fun c hc => isDigit_of_mem_toDigits hc
  rw [isNatural, hall, Bool.true_and, Bool.or_eq_true]
  rcases Nat.eq_zero_or_pos n with rfl | hn
  · exact .inl (by decide)
  · right
    have hne := head?_toDigits_ne_zero hn
    cases hd : Nat.toDigits 10 n with
    | nil => exact absurd hd Nat.toDigits_ne_nil
    | cons c s => simpa [hd] using hne

/-- A digit may stand in a number. -/
theorem isNumberChar_of_isDigit {c : Char} (h : c.isDigit) : isNumberChar c = true := by
  simp [isNumberChar, h]

/-- A text that goes on with neither a number nor a word. -/
def EndsToken (s : List Char) : Prop :=
  ∀ c ∈ s.head?, isNumberChar c = false ∧ c.isAlpha = false

/-- A digit is neither a mark nor a quote. -/
theorem not_isMark_of_isDigit {c : Char} (h : c.isDigit) : isMark c = false ∧ c ≠ '"' := by
  constructor
  · by_contra hm
    simp only [isMark, Bool.not_eq_false, Bool.or_eq_true, beq_iff_eq] at hm
    rcases hm with ((((rfl | rfl) | rfl) | rfl) | rfl) | rfl <;> simp at h
  · rintro rfl
    simp at h

/-- A digit is not a space. -/
theorem not_isSpace_of_isDigit {c : Char} (h : c.isDigit) : isSpace c = false := by
  by_contra hs
  simp only [isSpace, Bool.not_eq_false, Bool.or_eq_true, beq_iff_eq] at hs
  rcases hs with ((rfl | rfl) | rfl) | rfl <;> simp at h

/-- The digits of a number are read back as one token, before a text that does not go on with it. -/
theorem readToken_toDigits (n : Nat) {rest : List Char} (hr : EndsToken rest) :
    readToken (Nat.toDigits 10 n ++ rest) = some (.nat n, rest) := by
  have hnum : ∀ c ∈ Nat.toDigits 10 n, isNumberChar c = true :=
    fun c hc => isNumberChar_of_isDigit (isDigit_of_mem_toDigits hc)
  have htoken : numberToken? (Nat.toDigits 10 n) = some (.nat n) := by
    rw [numberToken?, if_pos (isNatural_toDigits n), ofDigits_toDigits]
  cases hd : Nat.toDigits 10 n with
  | nil => exact absurd hd Nat.toDigits_ne_nil
  | cons c s =>
    rw [hd] at hnum htoken
    have hc : c.isDigit := isDigit_of_mem_toDigits (n := n) (hd ▸ List.mem_cons_self)
    have hs : ∀ d ∈ s, isNumberChar d = true := fun d hm => hnum d (List.mem_cons_of_mem _ hm)
    obtain ⟨hmark, hquote⟩ := not_isMark_of_isDigit hc
    have hstop : ∀ d ∈ rest.head?, isNumberChar d = false := fun d hm => (hr d hm).1
    rw [List.cons_append, readToken, if_neg (by simp [hmark]), if_neg hquote,
      if_pos (hnum c List.mem_cons_self), takeWhile_append_of_stop hs hstop, htoken,
      dropWhile_append_of_stop hs hstop]
    rfl

/-! ## Tokens of a value -/

mutual

/-- The tokens of a value. -/
def tokens : Json → List Token
  | null => [.null]
  | bool b => [.bool b]
  | nat n => [.nat n]
  | number spelling => [.number spelling]
  | string s => [.string s]
  | array [] => [.mark '[', .mark ']']
  | array (x :: xs) => .mark '[' :: tokens x ++ itemTokens xs
  | object [] => [.mark '{', .mark '}']
  | object ((k, v) :: ms) =>
    .mark '{' :: .string k :: .mark ':' :: tokens v ++ memberTokens ms

/-- The tokens of the later items of an array and of its closing bracket. -/
def itemTokens : List Json → List Token
  | [] => [.mark ']']
  | x :: xs => .mark ',' :: tokens x ++ itemTokens xs

/-- The tokens of the later members of an object and of its closing brace. -/
def memberTokens : List (String × Json) → List Token
  | [] => [.mark '}']
  | (k, v) :: ms => .mark ',' :: .string k :: .mark ':' :: tokens v ++ memberTokens ms

end

/-- A token is followed by the tokens of the text behind it. -/
theorem ofText?_of_readToken {s : List Char} {t : Token} {rest : List Char}
    (hs : ∀ c ∈ s.head?, isSpace c = false) (h : readToken s = some (t, rest)) :
    Token.ofText? s = (Token.ofText? rest).map (t :: ·) := by
  cases s with
  | nil => cases h
  | cons c s =>
    rw [Token.ofText?, if_neg (by simp [hs c rfl])]
    split
    · next hn => rw [h] at hn; cases hn
    · next r hr => rw [h] at hr; cases hr; rfl

/-- A mark is a token by itself. -/
theorem ofText?_mark {c : Char} (h : isMark c = true) (hs : isSpace c = false) (rest : List Char) :
    Token.ofText? (c :: rest) = (Token.ofText? rest).map (.mark c :: ·) :=
  ofText?_of_readToken (by rintro d ⟨⟩; exact hs) (by rw [readToken, if_pos h])

/-- The first token of a text that begins with a written string is that string. -/
theorem ofText?_writeString (s : String) (rest : List Char) :
    Token.ofText? (writeString s ++ rest) = (Token.ofText? rest).map (.string s :: ·) :=
  ofText?_of_readToken (by rintro d ⟨⟩; rfl) (readToken_writeString s rest)

/-- The first token of a text that begins with the digits of a number is that number. -/
theorem ofText?_toDigits (n : Nat) {rest : List Char} (hr : EndsToken rest) :
    Token.ofText? (Nat.toDigits 10 n ++ rest) = (Token.ofText? rest).map (.nat n :: ·) := by
  refine ofText?_of_readToken (fun c hc => ?_) (readToken_toDigits n hr)
  cases hd : Nat.toDigits 10 n with
  | nil => exact absurd hd Nat.toDigits_ne_nil
  | cons d s =>
    rw [hd] at hc
    cases hc
    exact not_isSpace_of_isDigit (isDigit_of_mem_toDigits (n := n) (hd ▸ List.mem_cons_self))

/-- A space before a token is passed over. -/
theorem ofText?_space {c : Char} (h : isSpace c = true) (rest : List Char) :
    Token.ofText? (c :: rest) = Token.ofText? rest := by
  rw [Token.ofText?, if_pos h]

/-- Spaces before a token are passed over. -/
theorem ofText?_replicate_space (n : Nat) (rest : List Char) :
    Token.ofText? (List.replicate n ' ' ++ rest) = Token.ofText? rest := by
  induction n with
  | zero => rfl
  | succ n ih => rw [List.replicate_succ, List.cons_append, ofText?_space rfl, ih]

/-- Line breaks and indentations are no tokens. -/
theorem ofText?_lineBreak (indent : Option Nat) (rest : List Char) :
    Token.ofText? (lineBreak indent ++ rest) = Token.ofText? rest := by
  cases indent with
  | none => rfl
  | some n =>
    rw [lineBreak, List.cons_append, ofText?_space rfl, ofText?_replicate_space]

/-- A colon is one token, with or without a space behind it. -/
theorem ofText?_colon (indent : Option Nat) (rest : List Char) :
    Token.ofText? (colon indent ++ rest) = (Token.ofText? rest).map (.mark ':' :: ·) := by
  rw [colon]
  split
  · rw [List.cons_append, ofText?_mark rfl rfl, List.cons_append, ofText?_space rfl]
    rfl
  · rw [List.cons_append, ofText?_mark rfl rfl]
    rfl

/-- What stands behind a value that is not the last part of a container ends its token. -/
theorem endsToken_lineBreak (indent : Option Nat) {rest : List Char} (h : EndsToken rest) :
    EndsToken (lineBreak indent ++ rest) := by
  cases indent with
  | none => exact h
  | some n => rintro c ⟨⟩; exact ⟨rfl, rfl⟩

/-- A character that belongs to neither numbers nor words ends a token. -/
theorem endsToken_cons {c : Char} (h : isNumberChar c = false ∧ c.isAlpha = false)
    (rest : List Char) : EndsToken (c :: rest) := by
  rintro d ⟨⟩
  exact h

/-- Behind a value come the other items of its array or the end of it, and these end a token. -/
theorem endsToken_writeItems (indent : Option Nat) (xs : List Json) (rest : List Char) :
    EndsToken (writeItems indent xs ++ rest) := by
  cases xs with
  | nil =>
    rw [writeItems, List.append_assoc]
    exact endsToken_lineBreak indent (endsToken_cons ⟨rfl, rfl⟩ rest)
  | cons x xs => rw [writeItems]; exact endsToken_cons ⟨rfl, rfl⟩ _

/-- Behind a value come the other members of its object or the end of it, and these end a token. -/
theorem endsToken_writeMembers (indent : Option Nat) (ms : List (String × Json))
    (rest : List Char) : EndsToken (writeMembers indent ms ++ rest) := by
  cases ms with
  | nil =>
    rw [writeMembers, List.append_assoc]
    exact endsToken_lineBreak indent (endsToken_cons ⟨rfl, rfl⟩ rest)
  | cons m ms => rw [writeMembers]; exact endsToken_cons ⟨rfl, rfl⟩ _

/-- A word token is read whole from a text that goes on with no letter. -/
theorem ofText?_word {w : List Char} {t : Token} (ht : wordToken? w = some t)
    (hw : w.all Char.isAlpha) (hm : ∀ c ∈ w.head?, isSpace c = false ∧ isMark c = false ∧ c ≠ '"' ∧
      isNumberChar c = false) {rest : List Char} (hr : EndsToken rest) :
    Token.ofText? (w ++ rest) = (Token.ofText? rest).map (t :: ·) := by
  cases w with
  | nil => cases ht
  | cons c w =>
    obtain ⟨hspace, hmark, hquote, hnum⟩ := hm c rfl
    have hstop : ∀ d ∈ rest.head?, d.isAlpha = false := fun d hd => (hr d hd).2
    have hw' : ∀ d ∈ w, d.isAlpha = true := fun d hd =>
      List.all_eq_true.1 hw d (List.mem_cons_of_mem _ hd)
    refine ofText?_of_readToken (by rintro d ⟨⟩; exact hspace) ?_
    rw [List.cons_append, readToken, if_neg (by simp [hmark]), if_neg hquote,
      if_neg (by simp [hnum]), takeWhile_append_of_stop hw' hstop, ht,
      dropWhile_append_of_stop hw' hstop]
    rfl

mutual

/-- The text of a value falls into its tokens, whatever the indentation. -/
theorem tokens_write (indent : Option Nat) : ∀ {v : Json}, v.Plain → ∀ rest : List Char,
    EndsToken rest →
    Token.ofText? (write indent v ++ rest) = (Token.ofText? rest).map (tokens v ++ ·)
  | .null, _, rest, hr => by
    rw [write, tokens]
    exact ofText?_word rfl (by decide) (by rintro c ⟨⟩; decide) hr
  | .bool true, _, rest, hr => by
    rw [write, tokens]
    exact ofText?_word rfl (by decide) (by rintro c ⟨⟩; decide) hr
  | .bool false, _, rest, hr => by
    rw [write, tokens]
    exact ofText?_word rfl (by decide) (by rintro c ⟨⟩; decide) hr
  | .nat n, _, rest, hr => by
    rw [write, tokens]
    exact ofText?_toDigits n hr
  | .number _, h, _, _ => nomatch h
  | .string s, _, rest, _ => by
    rw [write, tokens]
    exact ofText?_writeString s rest
  | .array [], _, rest, _ => by
    rw [write, tokens, List.cons_append, ofText?_mark rfl rfl, List.cons_append,
      ofText?_mark rfl rfl, Option.map_map]
    rfl
  | .array (x :: xs), .array hx, rest, _ => by
    have hitems := tokens_writeItems indent (fun y hy => hx y (List.mem_cons_of_mem _ hy)) rest
    simp only [write, tokens, List.cons_append, List.append_assoc]
    rw [ofText?_mark rfl rfl, ofText?_lineBreak,
      tokens_write (deeper indent) (hx x List.mem_cons_self) _
        (endsToken_writeItems indent xs rest), hitems]
    simp [Function.comp_def]
  | .object [], _, rest, _ => by
    rw [write, tokens, List.cons_append, ofText?_mark rfl rfl, List.cons_append,
      ofText?_mark rfl rfl, Option.map_map]
    rfl
  | .object ((k, v) :: ms), .object hm, rest, _ => by
    have hmembers := tokens_writeMembers indent (fun y hy => hm y (List.mem_cons_of_mem _ hy)) rest
    simp only [write, tokens, List.cons_append, List.append_assoc]
    rw [ofText?_mark rfl rfl, ofText?_lineBreak, ofText?_writeString, ofText?_colon,
      tokens_write (deeper indent) (hm (k, v) List.mem_cons_self) _
        (endsToken_writeMembers indent ms rest),
      hmembers]
    simp [Function.comp_def]

/-- The items of an array fall into their tokens. -/
theorem tokens_writeItems (indent : Option Nat) : ∀ {xs : List Json}, (∀ x ∈ xs, x.Plain) →
    ∀ rest : List Char,
    Token.ofText? (writeItems indent xs ++ rest) = (Token.ofText? rest).map (itemTokens xs ++ ·)
  | [], _, rest => by
    rw [writeItems, itemTokens, List.append_assoc, ofText?_lineBreak, List.cons_append,
      ofText?_mark rfl rfl]
    rfl
  | x :: xs, hx, rest => by
    have hitems := tokens_writeItems indent (fun y hy => hx y (List.mem_cons_of_mem _ hy)) rest
    simp only [writeItems, itemTokens, List.cons_append, List.append_assoc]
    rw [ofText?_mark rfl rfl, ofText?_lineBreak,
      tokens_write (deeper indent) (hx x List.mem_cons_self) _
        (endsToken_writeItems indent xs rest), hitems]
    simp [Function.comp_def]

/-- The members of an object fall into their tokens. -/
theorem tokens_writeMembers (indent : Option Nat) : ∀ {ms : List (String × Json)},
    (∀ m ∈ ms, m.2.Plain) → ∀ rest : List Char,
    Token.ofText? (writeMembers indent ms ++ rest) =
      (Token.ofText? rest).map (memberTokens ms ++ ·)
  | [], _, rest => by
    rw [writeMembers, memberTokens, List.append_assoc, ofText?_lineBreak, List.cons_append,
      ofText?_mark rfl rfl]
    rfl
  | (k, v) :: ms, hm, rest => by
    have hmembers := tokens_writeMembers indent (fun y hy => hm y (List.mem_cons_of_mem _ hy)) rest
    simp only [writeMembers, memberTokens, List.cons_append, List.append_assoc]
    rw [ofText?_mark rfl rfl, ofText?_lineBreak, ofText?_writeString, ofText?_colon,
      tokens_write (deeper indent) (hm (k, v) List.mem_cons_self) _
        (endsToken_writeMembers indent ms rest),
      hmembers]
    simp [Function.comp_def]

end

/-! ## The value of tokens -/

/-- The tokens of a value begin with no closing mark. -/
theorem head?_tokens_ne_mark (v : Json) {c : Char} (h : c = ']' ∨ c = '}') (ts : List Token) :
    (tokens v ++ ts).head? ≠ some (.mark c) := by
  have hopen : ∀ d, d = '[' ∨ d = '{' → d ≠ c := by
    rintro d (rfl | rfl) <;> rcases h with rfl | rfl <;> decide
  cases v with
  | null | bool b | nat n | number s | string s => simp [tokens]
  | array xs => cases xs <;> simpa [tokens] using hopen '[' (.inl rfl)
  | object ms => cases ms <;> simpa [tokens] using hopen '{' (.inr rfl)

/-- Every value has a token. -/
theorem length_tokens_pos (v : Json) : 0 < (tokens v).length := by
  cases v with
  | null | bool b | nat n | number s | string s => simp [tokens]
  | array xs => cases xs <;> simp [tokens]
  | object ms => cases ms <;> simp [tokens]

mutual

/-- A reader with depth for two steps a token makes a value of its tokens. -/
theorem readValue_tokens : ∀ (v : Json) (depth : Nat) (ts : List Token),
    2 * (tokens v).length ≤ depth → readValue depth (tokens v ++ ts) = some (v, ts)
  | v, 0, _, h => absurd h (by have := length_tokens_pos v; omega)
  | .null, depth + 1, ts, _ | .bool _, depth + 1, ts, _ | .nat _, depth + 1, ts, _
  | .number _, depth + 1, ts, _ | .string _, depth + 1, ts, _ => by simp [tokens, readValue]
  | .array [], depth + 1, ts, _ => by simp [tokens, readValue]
  | .array (x :: xs), depth + 1, ts, h => by
    have hne := head?_tokens_ne_mark x (.inl rfl) (itemTokens xs ++ ts)
    have hitems := readItems_tokens x xs depth ts (by
      simp only [tokens, List.length_cons, List.length_append] at h
      omega)
    simp only [tokens, List.cons_append, List.append_assoc, readValue, if_true, if_neg hne, hitems,
      Option.map_some]
  | .object [], depth + 1, ts, _ => by simp [tokens, readValue]
  | .object ((k, v) :: ms), depth + 1, ts, h => by
    have hmembers := readMembers_tokens k v ms depth ts (by
      simp only [tokens, List.length_cons, List.length_append] at h
      omega)
    simp [tokens, readValue, hmembers]

/-- The items of an array are read back from their tokens, with two steps for each token. -/
theorem readItems_tokens : ∀ (x : Json) (xs : List Json) (depth : Nat) (ts : List Token),
    2 * ((tokens x).length + (itemTokens xs).length) ≤ depth →
    readItems depth (tokens x ++ (itemTokens xs ++ ts)) = some (x :: xs, ts)
  | x, xs, 0, _, h => absurd h (by have := length_tokens_pos x; omega)
  | x, [], depth + 1, ts, h => by
    have hx := readValue_tokens x depth (.mark ']' :: ts) (by
      simp only [itemTokens, List.length_cons] at h
      omega)
    simp [readItems, itemTokens, hx]
  | x, y :: ys, depth + 1, ts, h => by
    simp only [itemTokens, List.length_cons, List.length_append] at h
    have hx := readValue_tokens x depth
      (.mark ',' :: (tokens y ++ (itemTokens ys ++ ts))) (by omega)
    have hys := readItems_tokens y ys depth ts (by omega)
    simp [readItems, itemTokens, hx, hys]

/-- The members of an object are read back from their tokens, with two steps for each token. -/
theorem readMembers_tokens : ∀ (k : String) (v : Json) (ms : List (String × Json)) (depth : Nat)
    (ts : List Token), 2 * ((tokens v).length + (memberTokens ms).length) ≤ depth →
    readMembers depth (.string k :: .mark ':' :: (tokens v ++ (memberTokens ms ++ ts))) =
      some ((k, v) :: ms, ts)
  | k, v, ms, 0, _, h => absurd h (by have := length_tokens_pos v; omega)
  | k, v, [], depth + 1, ts, h => by
    have hv := readValue_tokens v depth (.mark '}' :: ts) (by
      simp only [memberTokens, List.length_cons] at h
      omega)
    simp [readMembers, memberTokens, hv]
  | k, v, (k', v') :: ms, depth + 1, ts, h => by
    simp only [memberTokens, List.length_cons, List.length_append] at h
    have hv := readValue_tokens v depth
      (.mark ',' :: .string k' :: .mark ':' :: (tokens v' ++ (memberTokens ms ++ ts))) (by omega)
    have hms := readMembers_tokens k' v' ms depth ts (by omega)
    simp [readMembers, memberTokens, hv, hms]

end

/-- **What was written is read back**, whatever the indentation. -/
theorem ofText?_write (indent : Option Nat) {v : Json} (h : v.Plain) :
    ofText? (String.ofList (write indent v)) = some v := by
  have htokens : Token.ofText? (write indent v) = some (tokens v) := by
    have hw := tokens_write indent h [] nofun
    rw [List.append_nil] at hw
    rw [hw, Token.ofText?, Option.map_some, List.append_nil]
  have hvalue := readValue_tokens v _ [] (Nat.le_refl (2 * (tokens v).length))
  rw [List.append_nil] at hvalue
  simp only [ofText?, String.toList_ofList, htokens, Option.bind_eq_bind, Option.bind_some, hvalue]
  rfl

/-- A value is read back from its text on many lines. -/
theorem ofText?_pretty {v : Json} (h : v.Plain) : ofText? v.pretty = some v :=
  ofText?_write (some 0) h

/-! ## Containers -/

variable {α β : Type}

/-- A decoder that undoes an encoder undoes it on every element of a list. -/
theorem mapM_map_of_inverse {f : α → β} {g : β → Option α} (h : ∀ x, g (f x) = some x)
    (xs : List α) : (xs.map f).mapM g = some xs := by
  induction xs with
  | nil => rfl
  | cons x xs ih => simp [List.mapM_cons, h, ih]

/-- A list is read back from an array if its elements are. -/
theorem asList?_array {f : α → Json} {item? : Json → Option α} (h : ∀ x, item? (f x) = some x)
    (xs : List α) : asList? item? (.array (xs.map f)) = some xs :=
  mapM_map_of_inverse h xs

/-- A set of texts is read back from the array of its elements. -/
theorem asTextSet?_strings (s : SortedSet String) : asTextSet? (strings s.toList) = some s := by
  have htext : ∀ x : String, asText? (.string x) = some x := fun _ => rfl
  rw [asTextSet?, strings, asList?_array htext, Option.map_some, SortedSet.ofList_toList]

/-- A map is read back from an object if its values are. -/
theorem asMap?_object {f : α → Json} {value? : Json → Option α} (h : ∀ x, value? (f x) = some x)
    (m : SortedMap String α) :
    asMap? value? (.object (m.entries.map fun e => (e.1, f e.2))) = some m := by
  rw [asMap?, mapM_map_of_inverse fun e => by rw [h]; rfl, Option.map_some,
    SortedMap.ofList_entries]

/-- An array of strings is plain. -/
theorem plain_strings (xs : List String) : (strings xs).Plain :=
  .array fun x hx => by
    obtain ⟨s, _, rfl⟩ := List.mem_map.1 hx
    exact .string s

end SchemaDrift.Json

import SchemaDrift.Proofs.Text.Decoding
import SchemaDrift.Scan.Offset

/-!
# A text as the symbols of its bytes

`symbols` gives the bytes of a text, each as the symbol with its code. A symbol of ASCII among them
stands for itself, and every other one is a byte of a character outside ASCII
(`eq_of_mem_symbols`). So the symbols of a text fall apart at a symbol of ASCII exactly where the
text does (`exists_of_symbols_eq`), and the parts are read back as texts (`ofByteSymbols?_symbols`).
-/

namespace SchemaDrift.Scan

open SchemaDrift.Text

variable {c e : Char} {s x y : List Char}

/-- The bytes of a text as symbols. -/
def symbols (s : List Char) : List Char :=
  (utf8 s).map fun b => Char.ofNat b.toNat

/-- The symbols of the bytes of a text are made character by character. -/
theorem byteSymbols_eq (text : String) : byteSymbols text = symbols text.toList :=
  rfl

/-- The empty text has no symbols. -/
@[simp] theorem symbols_nil : symbols [] = [] :=
  rfl

/-- The symbols of two texts are those of the first and then those of the second. -/
@[simp] theorem symbols_append (s t : List Char) : symbols (s ++ t) = symbols s ++ symbols t := by
  simp [symbols, utf8]

/-- The symbols of a text begin with those of its first character. -/
theorem symbols_cons (c : Char) (s : List Char) : symbols (c :: s) = symbols [c] ++ symbols s :=
  symbols_append [c] s

/-- The symbol of a byte has the code of the byte. -/
theorem toNat_ofNat_toNat (b : UInt8) : (Char.ofNat b.toNat).toNat = b.toNat := by
  have hvalid : b.toNat.isValidChar := .inl (Nat.lt_trans b.toNat_lt (by decide))
  rw [Char.ofNat, dif_pos hvalid]
  rfl

/-! ## Symbols of ASCII -/

/-- Whether a symbol is one of ASCII. -/
def isAscii (c : Char) : Bool :=
  c.toNat < 128

/-- An ASCII character is its own symbol. -/
theorem symbols_of_isAscii (h : isAscii c) : symbols [c] = [c] := by
  have hv : c.val.toNat < 128 := of_decide_eq_true h
  have hbytes : utf8 [c] = [UInt8.ofNat c.val.toNat] := by
    rw [utf8, List.flatMap_singleton, String.utf8EncodeChar, if_pos (Nat.le_of_lt_succ hv)]
  rw [symbols, hbytes, List.map_singleton, toNat_ofNat_of_lt (by omega)]
  exact congrArg (fun c => [c]) (Char.ofNat_toNat c)

/-- An ASCII character at the head of a text is its first symbol. -/
theorem symbols_cons_of_isAscii (h : isAscii c) (s : List Char) :
    symbols (c :: s) = c :: symbols s := by
  rw [symbols_cons, symbols_of_isAscii h]
  rfl

/-- An ASCII text is made of its own symbols. -/
theorem symbols_eq_self (h : ∀ c ∈ s, isAscii c) : symbols s = s := by
  induction s with
  | nil => rfl
  | cons c s ih =>
    rw [List.forall_mem_cons] at h
    rw [symbols_cons_of_isAscii h.1, ih h.2]

/-- A symbol of ASCII among the bytes of a character is the character. -/
theorem eq_of_mem_symbols (he : isAscii e) (h : e ∈ symbols [c]) : c = e := by
  obtain ⟨b, hb, rfl⟩ := List.mem_map.1 h
  have hlt : (Char.ofNat b.toNat).toNat < 128 := of_decide_eq_true he
  rw [toNat_ofNat_toNat] at hlt
  have hb' : b ∈ String.utf8EncodeChar c := by simpa [utf8] using hb
  rw [← Char.toNat_inj, toNat_ofNat_toNat, toNat_eq_of_mem_utf8EncodeChar hb' hlt]

/-- The bytes of a character outside ASCII are outside ASCII. -/
theorem isAscii_of_mem_symbols (hc : isAscii c = false) (h : e ∈ symbols [c]) :
    isAscii e = false := by
  by_contra he
  rw [Bool.not_eq_false] at he
  rw [eq_of_mem_symbols he h, he] at hc
  cases hc

/-- A character has as many symbols as bytes. -/
theorem length_symbols (c : Char) : (symbols [c]).length = c.utf8Size := by
  simp [symbols, utf8]

/-- A character has a symbol. -/
theorem symbols_ne_nil (c : Char) : symbols [c] ≠ [] := by
  intro h
  have hpos := c.utf8Size_pos
  rw [← length_symbols, h] at hpos
  exact Nat.lt_irrefl 0 hpos

/-! ## Reading back -/

/-- A text is put together again from its symbols. -/
theorem ofByteSymbols?_symbols (s : List Char) :
    ofByteSymbols? (symbols s) = some (String.ofList s) := by
  have hbytes : (symbols s).map (fun c => UInt8.ofNat c.toNat) = utf8 s := by
    rw [symbols, List.map_map]
    refine (List.map_congr_left fun b _ => ?_).trans (List.map_id _)
    rw [Function.comp_apply, toNat_ofNat_toNat]
    exact UInt8.ofNat_toNat
  rw [ofByteSymbols?, hbytes, decode?_utf8, Option.map_some]

/-- The bytes of a text fall apart at a symbol of ASCII where the text does. -/
theorem exists_of_symbols_eq (he : isAscii e) (h : symbols s = x ++ e :: y) :
    ∃ u v, s = u ++ e :: v ∧ x = symbols u ∧ y = symbols v := by
  induction s generalizing x with
  | nil => simp at h
  | cons c s ih =>
    rw [symbols_cons] at h
    rcases List.append_eq_append_iff.1 h with ⟨m, rfl, hm⟩ | ⟨m, hm, hy⟩
    · obtain ⟨u, v, rfl, rfl, rfl⟩ := ih hm
      exact ⟨c :: u, v, rfl, (symbols_cons c u).symm, rfl⟩
    · cases m with
      | nil =>
        obtain ⟨u, v, rfl, hu, rfl⟩ := ih (x := []) hy.symm
        exact ⟨c :: u, v, rfl, by rw [symbols_cons, ← hu, hm]; simp, rfl⟩
      | cons e' m =>
        obtain ⟨rfl, rfl⟩ := List.cons.inj hy
        have hmem : e ∈ symbols [c] := by simp [hm]
        obtain rfl := eq_of_mem_symbols he hmem
        rw [symbols_of_isAscii he] at hm
        obtain ⟨rfl, rfl⟩ : x = [] ∧ m = [] := by
          simpa [List.singleton_eq_append_iff] using hm
        exact ⟨[], s, rfl, rfl, rfl⟩

end SchemaDrift.Scan

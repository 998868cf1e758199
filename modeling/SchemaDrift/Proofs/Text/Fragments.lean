import SchemaDrift.Proofs.Text.Decoding

/-!
# Fragments of characters

Every byte of a text belongs to one character (`exists_char_of_utf8_eq`). Bytes that end inside a
character are no text, since the decoder is left with an unfinished one (`decode?_of_cut`), and
neither are bytes that begin behind the first byte of a character (`exists_continuation`,
`decode?_of_refused`). All this follows from what the decoder makes of a whole character.
-/

namespace SchemaDrift.Text

variable {c : Char} {b e : UInt8} {s : List Char} {x y p q : List UInt8} {u : Unfinished}

/-! ## The decoder between bytes -/

/-- An unfinished character gives a part, if only a broken one. -/
theorem decodeParts_unfinished_ne_nil (u : Unfinished) (bs : List UInt8) :
    decodeParts (some u) bs ≠ [] := by
  induction bs generalizing u with
  | nil => simp [decodeParts]
  | cons b bs ih =>
    rw [decodeParts, decodeByte]
    cases h : u.nextByte b.toNat with
    | completes c => simp
    | continues u' => simpa [h] using ih u'
    | refused => simp

/-- A byte gives a part. -/
theorem decodeParts_cons_ne_nil (state : Option Unfinished) (b : UInt8) (bs : List UInt8) :
    decodeParts state (b :: bs) ≠ [] := by
  cases state with
  | some u => exact decodeParts_unfinished_ne_nil u (b :: bs)
  | none =>
    rw [decodeParts, decodeByte]
    cases h : firstByte b.toNat with
    | completes c => simp
    | continues u => simpa [h] using decodeParts_unfinished_ne_nil u bs
    | refused => simp

/-- A byte that finishes no part leaves a character under way. -/
theorem decodeByte_isSome {state : Option Unfinished} (h : (decodeByte state b).1 = []) :
    (decodeByte state b).2.isSome := by
  have hfresh : (decodeByte none b).1 = [] → (decodeByte none b).2.isSome := by
    intro h
    cases hfirst : firstByte b.toNat <;> simp [decodeByte, hfirst] at h ⊢
  cases state with
  | none => exact hfresh h
  | some u => cases hnext : u.nextByte b.toNat <;> simp [decodeByte, hnext] at h ⊢

/-- Some bytes finish parts and leave a state behind. If they finish none, a character is under
way. -/
theorem exists_decodeParts_append (state : Option Unfinished) (x : List UInt8) :
    ∃ parts state', (∀ y, decodeParts state (x ++ y) = parts ++ decodeParts state' y) ∧
      (parts = [] → state'.isSome ∨ x = [] ∧ state' = state) := by
  induction x generalizing state with
  | nil => exact ⟨[], state, fun y => rfl, fun _ => .inr ⟨rfl, rfl⟩⟩
  | cons b x ih =>
    obtain ⟨parts, state', hparts, hsome⟩ := ih (decodeByte state b).2
    refine ⟨(decodeByte state b).1 ++ parts, state', fun y => ?_, fun hnil => ?_⟩
    · rw [List.append_assoc, ← hparts y]
      cases state <;> rfl
    · rw [List.append_eq_nil_iff] at hnil
      rcases hsome hnil.2 with hsome | ⟨-, rfl⟩
      · exact .inl hsome
      · exact .inl (decodeByte_isSome hnil.1)

/-! ## Cuts inside a character -/

/-- The first bytes of a character, up to any but the last, leave it unfinished. -/
theorem decodeParts_of_cut (h : String.utf8EncodeChar c = p ++ b :: q) (hp : p ≠ []) :
    decodeParts none p = [none] := by
  obtain ⟨parts, state', hparts, hsome⟩ := exists_decodeParts_append none p
  have hchar : parts ++ decodeParts state' (b :: q) = [some c] := by
    have hwhole := decodeParts_utf8EncodeChar c []
    rwa [List.append_nil, h, hparts] at hwhole
  -- The bytes behind the cut finish something, so those before it finish nothing.
  obtain rfl : parts = [] := by
    rcases List.append_eq_singleton_iff.1 hchar with ⟨hnil, -⟩ | ⟨-, hnil⟩
    · exact hnil
    · exact absurd hnil (decodeParts_cons_ne_nil _ _ _)
  have hend := hparts []
  rcases hsome rfl with hsome | ⟨hnil, -⟩
  · obtain ⟨u, rfl⟩ := Option.isSome_iff_exists.1 hsome
    rwa [List.append_nil] at hend
  · exact absurd hnil hp

/-- A byte outside ASCII begins no character, or one whose next byte is bounded. -/
theorem firstByte_cases {n : Nat} (h : 0x80 ≤ n) : firstByte n = .refused ∨
    ∃ u, firstByte n = .continues u ∧ 0xC2 ≤ n ∧ 0x80 ≤ u.low ∧ u.high ≤ 0xBF := by
  have bounds : ∀ {bits lacking low high : Nat}, 0xC2 ≤ n → 0x80 ≤ low → high ≤ 0xBF →
      ByteEffect.continues ⟨bits, lacking, low, high⟩ = .refused ∨
        ∃ u, ByteEffect.continues ⟨bits, lacking, low, high⟩ = .continues u ∧ 0xC2 ≤ n ∧
          0x80 ≤ u.low ∧ u.high ≤ 0xBF :=
    fun hlead hlow hhigh => .inr ⟨_, rfl, hlead, hlow, hhigh⟩
  rw [firstByte, if_neg (by omega)]
  split
  · exact .inl rfl
  have hlead : 0xC2 ≤ n := by omega
  split
  · exact bounds hlead (by decide) (by decide)
  split
  · exact bounds hlead (by decide) (by decide)
  split
  · exact bounds hlead (by decide) (by decide)
  split
  · exact bounds hlead (by decide) (by decide)
  split
  · exact bounds hlead (by decide) (by decide)
  split
  · exact bounds hlead (by decide) (by decide)
  split
  · exact bounds hlead (by decide) (by decide)
  · exact .inl rfl

/-- Behind the first byte of a character outside ASCII stands one that begins none, and that is not
the first byte again. -/
theorem exists_continuation (h : String.utf8EncodeChar c = b :: q) (hb : 0x80 ≤ b.toNat) :
    ∃ e q', q = e :: q' ∧ 0x80 ≤ e.toNat ∧ firstByte e.toNat = .refused ∧ e ≠ b := by
  have hwhole := decodeParts_utf8EncodeChar c []
  rw [List.append_nil, h] at hwhole
  rcases firstByte_cases hb with hfirst | ⟨u, hfirst, hlead, hlow, hhigh⟩
  · simp [decodeParts, decodeByte, hfirst] at hwhole
  rw [decodeParts_first hfirst] at hwhole
  cases q with
  | nil => simp [decodeParts] at hwhole
  | cons e q =>
    have hrange : u.low ≤ e.toNat ∧ e.toNat ≤ u.high := by
      refine Decidable.byContradiction fun hout => ?_
      have hrefused : u.nextByte e.toNat = .refused := by
        rw [Unfinished.nextByte, if_pos]
        simp only [Bool.or_eq_true, decide_eq_true_eq]
        omega
      simp [decodeParts, decodeByte, hrefused] at hwhole
    refine ⟨e, q, rfl, by omega, ?_, ?_⟩
    · rw [firstByte, if_neg (by omega), if_pos (by omega)]
    · rintro rfl
      omega

/-! ## Texts -/

/-- Every byte of a text belongs to one of its characters. -/
theorem exists_char_of_utf8_eq (h : utf8 s = x ++ b :: y) :
    ∃ front c rest p q, s = front ++ c :: rest ∧ String.utf8EncodeChar c = p ++ b :: q ∧
      x = utf8 front ++ p ∧ y = q ++ utf8 rest := by
  induction s generalizing x with
  | nil => simp [utf8] at h
  | cons c s ih =>
    rw [utf8, List.flatMap_cons] at h
    rcases List.append_eq_append_iff.1 h with ⟨m, rfl, hm⟩ | ⟨m, hm, hy⟩
    · obtain ⟨front, c', rest, p, q, rfl, hc, rfl, rfl⟩ := ih hm
      exact ⟨c :: front, c', rest, p, q, rfl, hc, by simp [utf8], rfl⟩
    · cases m with
      | nil =>
        obtain ⟨front, c', rest, p, q, rfl, hc, hx, rfl⟩ := ih (x := []) hy.symm
        refine ⟨c :: front, c', rest, p, q, rfl, hc, ?_, rfl⟩
        rw [List.append_nil] at hm
        rw [← hm, utf8, List.flatMap_cons, List.append_assoc, ← utf8, ← hx, List.append_nil]
      | cons b' m =>
        obtain ⟨rfl, rfl⟩ := List.cons.inj hy
        exact ⟨[], c, s, x, m, rfl, hm, rfl, rfl⟩

/-- The bytes of a text are read as its characters, whatever follows. -/
theorem decodeParts_utf8_append (s : List Char) (bs : List UInt8) :
    decodeParts none (utf8 s ++ bs) = s.map some ++ decodeParts none bs := by
  induction s with
  | nil => rfl
  | cons c s ih =>
    rw [utf8, List.flatMap_cons, List.append_assoc, decodeParts_utf8EncodeChar, ← utf8, ih]
    rfl

/-- Bytes with a broken part are no text. -/
theorem decode?_eq_none (h : none ∈ decodeParts none x) : decode? x = none := by
  rw [decode?]
  generalize decodeParts none x = parts at h
  induction parts with
  | nil => cases h
  | cons part parts ih =>
    rw [List.mapM_cons]
    rcases List.mem_cons.1 h with rfl | h
    · rfl
    · rw [ih h]
      cases part <;> rfl

/-- Bytes that end inside a character are no text. -/
theorem decode?_of_cut (h : String.utf8EncodeChar c = p ++ b :: q) (hp : p ≠ [])
    (s : List Char) : decode? (utf8 s ++ p) = none := by
  refine decode?_eq_none ?_
  rw [decodeParts_utf8_append, decodeParts_of_cut h hp]
  simp

/-- Bytes that begin with one that begins no character are no text. -/
theorem decode?_of_refused (h : firstByte e.toNat = .refused) (x : List UInt8) :
    decode? (e :: x) = none := by
  refine decode?_eq_none ?_
  simp [decodeParts, decodeByte, h]

end SchemaDrift.Text

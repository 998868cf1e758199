import Mathlib.Logic.Function.Basic
import SchemaDrift.Text.Utf8

/-!
# Bytes of a text

A text is determined by its bytes (`utf8_injective`). Every byte of a character outside ASCII is at
least 128, so a byte below stands for the character with its code (`toNat_eq_of_mem_utf8EncodeChar`).

The decoder reads the bytes of a character as that character, whatever follows
(`decodeParts_utf8EncodeChar`), so the bytes of a text are well formed and are read back as the text
(`decode?_utf8`). The first byte tells how many bytes follow and bounds the second one, which is
where longer encodings of a character and halves of surrogate pairs are refused
(`firstByte_of_three`, `firstByte_of_four`).
-/

namespace SchemaDrift.Text

/-! ## Encoding -/

/-- A text is determined by its bytes. -/
theorem utf8_injective : Function.Injective utf8 := by
  intro x y h
  have hbytes : (String.ofList x).toByteArray = (String.ofList y).toByteArray := by
    rw [String.toByteArray_ofList, String.toByteArray_ofList, List.utf8Encode, List.utf8Encode]
    exact congrArg List.toByteArray h
  exact String.ofList_injective (String.toByteArray_inj.1 hbytes)

/-- A byte below 128 in the encoding of a character is its code. -/
theorem toNat_eq_of_mem_utf8EncodeChar {c : Char} {b : UInt8} (h : b ∈ String.utf8EncodeChar c)
    (hb : b.toNat < 0x80) : c.toNat = b.toNat := by
  have hv : c.val.toNat = c.toNat := rfl
  rw [String.utf8EncodeChar] at h
  -- Every byte of an encoding in several bytes has its highest bit set.
  split at h
  · obtain rfl := List.mem_singleton.1 h
    rw [UInt8.toNat_ofNat']
    omega
  split at h
  · simp only [List.mem_cons, List.not_mem_nil, or_false] at h
    rcases h with rfl | rfl <;> rw [UInt8.toNat_ofNat'] at hb <;> omega
  split at h
  · simp only [List.mem_cons, List.not_mem_nil, or_false] at h
    rcases h with rfl | rfl | rfl <;> rw [UInt8.toNat_ofNat'] at hb <;> omega
  · simp only [List.mem_cons, List.not_mem_nil, or_false] at h
    rcases h with rfl | rfl | rfl | rfl <;> rw [UInt8.toNat_ofNat'] at hb <;> omega

/-! ## Decoding -/

/-- A character that begins goes on in the next bytes. -/
theorem decodeParts_first {b : UInt8} {u : Unfinished} (h : firstByte b.toNat = .continues u)
    (bs : List UInt8) : decodeParts none (b :: bs) = decodeParts (some u) bs := by
  simp only [decodeParts, decodeByte, h, List.nil_append]

section Next

variable {bits lacking low high : Nat} {b : UInt8}

/-- The last byte that an unfinished character lacks completes it. -/
theorem decodeParts_last (hlow : low ≤ b.toNat) (hhigh : b.toNat ≤ high) (bs : List UInt8) :
    decodeParts (some ⟨bits, 1, low, high⟩) (b :: bs) =
      some (Char.ofNat (bits * 64 + (b.toNat - 0x80))) :: decodeParts none bs := by
  have hnext : Unfinished.nextByte ⟨bits, 1, low, high⟩ b.toNat =
      .completes (Char.ofNat (bits * 64 + (b.toNat - 0x80))) := by
    simp [Unfinished.nextByte, Nat.not_lt.2 hlow, Nat.not_lt.2 hhigh]
  simp only [decodeParts, decodeByte, hnext, List.cons_append, List.nil_append]

/-- Another byte adds to the bits of an unfinished character. -/
theorem decodeParts_next (hlacking : 1 < lacking) (hlow : low ≤ b.toNat) (hhigh : b.toNat ≤ high)
    (bs : List UInt8) : decodeParts (some ⟨bits, lacking, low, high⟩) (b :: bs) =
      decodeParts (some ⟨bits * 64 + (b.toNat - 0x80), lacking - 1, 0x80, 0xBF⟩) bs := by
  have hnext : Unfinished.nextByte ⟨bits, lacking, low, high⟩ b.toNat =
      .continues ⟨bits * 64 + (b.toNat - 0x80), lacking - 1, 0x80, 0xBF⟩ := by
    simp [Unfinished.nextByte, Nat.not_lt.2 hlow, Nat.not_lt.2 hhigh, Nat.not_le.2 hlacking]
  simp only [decodeParts, decodeByte, hnext, List.nil_append]

end Next

/-- The first of two bytes asks for one more. -/
theorem firstByte_of_two {v : Nat} (h : 0x7F < v) (h' : v ≤ 0x7FF) :
    firstByte (v / 64 + 192) = .continues ⟨v / 64, 1, 0x80, 0xBF⟩ := by
  have hbits : v / 64 + 192 - 0xC0 = v / 64 := by omega
  rw [firstByte, if_neg (by omega), if_neg (by omega), if_pos (by omega), hbits]

/-- The first of three bytes asks for two more, and the second one is within its bounds. -/
theorem firstByte_of_three {v : Nat} (h : 0x7FF < v) (h' : v ≤ 0xFFFF)
    (hvalid : v < 0xD800 ∨ 0xDFFF < v) :
    ∃ low high, firstByte (v / 4096 + 224) = .continues ⟨v / 4096, 2, low, high⟩ ∧
      low ≤ v / 64 % 64 + 128 ∧ v / 64 % 64 + 128 ≤ high := by
  rw [firstByte, if_neg (by omega), if_neg (by omega), if_neg (by omega)]
  split
  · next he =>
    have hzero : v / 4096 = 0 := by omega
    exact ⟨0xA0, 0xBF, by rw [hzero], by omega, by omega⟩
  split
  · next he =>
    have hbits : v / 4096 = 0xD := by omega
    exact ⟨0x80, 0x9F, by rw [hbits], by omega, by omega⟩
  · have hbits : v / 4096 + 224 - 0xE0 = v / 4096 := by omega
    rw [if_pos (by omega), hbits]
    exact ⟨0x80, 0xBF, rfl, by omega, by omega⟩

/-- The first of four bytes asks for three more, and the second one is within its bounds. -/
theorem firstByte_of_four {v : Nat} (h : 0xFFFF < v) (h' : v ≤ 0x10FFFF) :
    ∃ low high, firstByte (v / 262144 + 240) = .continues ⟨v / 262144, 3, low, high⟩ ∧
      low ≤ v / 4096 % 64 + 128 ∧ v / 4096 % 64 + 128 ≤ high := by
  rw [firstByte, if_neg (by omega), if_neg (by omega), if_neg (by omega), if_neg (by omega),
    if_neg (by omega), if_neg (by omega)]
  split
  · next he =>
    have hzero : v / 262144 = 0 := by omega
    exact ⟨0x90, 0xBF, by rw [hzero], by omega, by omega⟩
  split
  · have hbits : v / 262144 + 240 - 0xF0 = v / 262144 := by omega
    exact ⟨0x80, 0xBF, by rw [hbits], by omega, by omega⟩
  · have hbits : v / 262144 = 4 := by omega
    rw [if_pos (by omega)]
    exact ⟨0x80, 0x8F, by rw [hbits], by omega, by omega⟩

/-- A number below 256 is kept by a byte. -/
theorem toNat_ofNat_of_lt {n : Nat} (h : n < 256) : (UInt8.ofNat n).toNat = n := by
  rw [UInt8.toNat_ofNat']
  omega

/-- The bytes of a character are read back as the character. -/
theorem decodeParts_utf8EncodeChar (c : Char) (bs : List UInt8) :
    decodeParts none (String.utf8EncodeChar c ++ bs) = some c :: decodeParts none bs := by
  have hchar : ∀ n, n = c.val.toNat → Char.ofNat n = c := by
    rintro n rfl
    exact Char.ofNat_toNat c
  have hvalid : c.val.toNat < 0xD800 ∨ 0xDFFF < c.val.toNat ∧ c.val.toNat < 0x110000 := c.valid
  rw [String.utf8EncodeChar]
  generalize c.val.toNat = v at hchar hvalid ⊢
  have hcont : ∀ n, (UInt8.ofNat (n % 64 + 128)).toNat = n % 64 + 128 :=
    fun n => toNat_ofNat_of_lt (by omega)
  have hlow : ∀ n, 0x80 ≤ (UInt8.ofNat (n % 64 + 128)).toNat := fun n => by rw [hcont]; omega
  have hhigh : ∀ n, (UInt8.ofNat (n % 64 + 128)).toNat ≤ 0xBF := fun n => by rw [hcont]; omega
  -- As many bytes are used as the code needs, so no bit of the first byte is cut off.
  split
  · have hfirst : firstByte v = .completes (Char.ofNat v) := if_pos (by omega)
    have hv : (UInt8.ofNat v).toNat = v := toNat_ofNat_of_lt (by omega)
    simp only [List.cons_append, List.nil_append, decodeParts, decodeByte, hv, hfirst, hchar v rfl]
  split
  · have hlead : (UInt8.ofNat (v / 64 % 32 + 192)).toNat = v / 64 + 192 := by
      rw [toNat_ofNat_of_lt (by omega)]
      omega
    have hfirst := firstByte_of_two (v := v) (by omega) (by omega)
    rw [List.cons_append, List.cons_append, decodeParts_first (hlead ▸ hfirst),
      decodeParts_last (hlow v) (hhigh v), hcont, hchar _ (by omega), List.nil_append]
  split
  · have hlead : (UInt8.ofNat (v / 4096 % 16 + 224)).toNat = v / 4096 + 224 := by
      rw [toNat_ofNat_of_lt (by omega)]
      omega
    obtain ⟨low, high, hfirst, hsecond, hsecond'⟩ :=
      firstByte_of_three (v := v) (by omega) (by omega) (by omega)
    rw [← hcont] at hsecond hsecond'
    simp only [List.cons_append, List.nil_append]
    rw [decodeParts_first (hlead ▸ hfirst), decodeParts_next (by decide) hsecond hsecond',
      decodeParts_last (hlow v) (hhigh v), hcont, hcont, hchar _ (by omega)]
  · have hlead : (UInt8.ofNat (v / 262144 % 8 + 240)).toNat = v / 262144 + 240 := by
      rw [toNat_ofNat_of_lt (by omega)]
      omega
    obtain ⟨low, high, hfirst, hsecond, hsecond'⟩ :=
      firstByte_of_four (v := v) (by omega) (by omega)
    rw [← hcont] at hsecond hsecond'
    simp only [List.cons_append, List.nil_append]
    rw [decodeParts_first (hlead ▸ hfirst), decodeParts_next (by decide) hsecond hsecond',
      decodeParts_next (by decide) (hlow _) (hhigh _), decodeParts_last (hlow v) (hhigh v), hcont,
      hcont, hcont, hchar _ (by omega)]

/-- The bytes of a text are well formed, and are read back as the text. -/
theorem decode?_utf8 (s : List Char) : decode? (utf8 s) = some s := by
  have hparts : decodeParts none (utf8 s) = s.map some := by
    induction s with
    | nil => rfl
    | cons c s ih =>
      rw [utf8, List.flatMap_cons, decodeParts_utf8EncodeChar, List.map_cons, ← ih]
      rfl
  rw [decode?, hparts]
  clear hparts
  induction s with
  | nil => rfl
  | cons c s ih => simp [List.mapM_cons, ih]

end SchemaDrift.Text

import SchemaDrift.Proofs.Text.Decoding

/-!
# The order of bytes

Texts are compared by the codes of their characters, and that is the order of their bytes
(`compare_eq_lt_iff_precedes`). A character with a smaller code has a smaller byte at the first
place where its bytes differ from those of the other (`bytesBefore_utf8EncodeChar`): the first byte
tells how many bytes there are, and the bytes hold the digits of the code, the highest first.
-/

namespace SchemaDrift.Text

variable {a b : UInt8} {x y : List UInt8}

/-- Bytes come before others in the order of a dictionary. -/
def BytesBefore (x y : List UInt8) : Prop :=
  List.Lex (fun a b => a.toNat < b.toNat) x y

/-- A text comes before another in the order of their bytes. -/
def Precedes (a b : String) : Prop :=
  BytesBefore (utf8 a.toList) (utf8 b.toList)

namespace BytesBefore

/-- Bytes come before others if the first byte is less. -/
theorem of_lt (h : a.toNat < b.toNat) : BytesBefore (a :: x) (b :: y) :=
  .rel h

/-- Bytes come before others if the first byte is at most the other one and the rest decides where
they are equal. -/
theorem of_le (h : a.toNat ≤ b.toNat) (hrest : a.toNat = b.toNat → BytesBefore x y) :
    BytesBefore (a :: x) (b :: y) := by
  rcases Nat.lt_or_eq_of_le h with hlt | heq
  · exact of_lt hlt
  · obtain rfl := UInt8.toNat_inj.1 heq
    exact .cons (hrest heq)

/-- Equal bytes in front do not matter. -/
theorem append_left (z : List UInt8) (h : BytesBefore x y) : BytesBefore (z ++ x) (z ++ y) := by
  induction z with
  | nil => exact h
  | cons b z ih => exact .cons ih

/-- Of two sequences of bytes, at most one comes before the other. -/
theorem asymm (h : BytesBefore x y) : ¬ BytesBefore y x :=
  List.lex_asymm Nat.lt_asymm h

end BytesBefore

/-- The bytes of a character come before those of one with a greater code, whatever follows. -/
theorem bytesBefore_utf8EncodeChar {c d : Char} (h : c.val.toNat < d.val.toNat)
    (x y : List UInt8) :
    BytesBefore (String.utf8EncodeChar c ++ x) (String.utf8EncodeChar d ++ y) := by
  have hmax : d.val.toNat < 0x110000 := by
    have hvalid : d.val.toNat < 0xD800 ∨ 0xDFFF < d.val.toNat ∧ d.val.toNat < 0x110000 := d.valid
    omega
  have hone : ∀ n, n ≤ 127 → (UInt8.ofNat n).toNat = n := fun n hn => toNat_ofNat_of_lt (by omega)
  have htwo : ∀ n, (UInt8.ofNat (n % 32 + 192)).toNat = n % 32 + 192 :=
    fun n => toNat_ofNat_of_lt (by omega)
  have hthree : ∀ n, (UInt8.ofNat (n % 16 + 224)).toNat = n % 16 + 224 :=
    fun n => toNat_ofNat_of_lt (by omega)
  have hfour : ∀ n, (UInt8.ofNat (n % 8 + 240)).toNat = n % 8 + 240 :=
    fun n => toNat_ofNat_of_lt (by omega)
  have hnext : ∀ n, (UInt8.ofNat (n % 64 + 128)).toNat = n % 64 + 128 :=
    fun n => toNat_ofNat_of_lt (by omega)
  rw [String.utf8EncodeChar, String.utf8EncodeChar]
  generalize c.val.toNat = v at h ⊢
  generalize d.val.toNat = w at h hmax ⊢
  split
  · next hv =>
    have hlead := hone v hv
    split
    · next hw => exact .of_lt (by rw [hlead, hone w hw]; exact h)
    split
    · exact .of_lt (by rw [hlead, htwo]; omega)
    split
    · exact .of_lt (by rw [hlead, hthree]; omega)
    · exact .of_lt (by rw [hlead, hfour]; omega)
  rw [if_neg (by omega : ¬ w ≤ 127)]
  split
  · split
    · refine .of_le (by rw [htwo, htwo]; omega) fun hfirst => ?_
      rw [htwo, htwo] at hfirst
      exact .of_lt (by rw [hnext, hnext]; omega)
    split
    · exact .of_lt (by rw [htwo, hthree]; omega)
    · exact .of_lt (by rw [htwo, hfour]; omega)
  rw [if_neg (by omega : ¬ w ≤ 2047)]
  split
  · split
    · refine .of_le (by rw [hthree, hthree]; omega) fun hfirst => ?_
      rw [hthree, hthree] at hfirst
      refine .of_le (by rw [hnext, hnext]; omega) fun hsecond => ?_
      rw [hnext, hnext] at hsecond
      exact .of_lt (by rw [hnext, hnext]; omega)
    · exact .of_lt (by rw [hthree, hfour]; omega)
  · rw [if_neg (by omega : ¬ w ≤ 65535)]
    refine .of_le (by rw [hfour, hfour]; omega) fun hfirst => ?_
    rw [hfour, hfour] at hfirst
    refine .of_le (by rw [hnext, hnext]; omega) fun hsecond => ?_
    rw [hnext, hnext] at hsecond
    refine .of_le (by rw [hnext, hnext]; omega) fun hthird => ?_
    rw [hnext, hnext] at hthird
    exact .of_lt (by rw [hnext, hnext]; omega)

/-- A text whose codes come before those of another has bytes that come before. -/
theorem bytesBefore_utf8 {s t : List Char}
    (h : List.Lex (fun c d => c.val.toNat < d.val.toNat) s t) : BytesBefore (utf8 s) (utf8 t) := by
  induction h with
  | nil =>
    next d t =>
    obtain ⟨b, z, hb⟩ := List.exists_cons_of_ne_nil (String.utf8EncodeChar_ne_nil (c := d))
    rw [utf8, utf8, List.flatMap_cons, hb]
    exact .nil
  | rel hcd => exact bytesBefore_utf8EncodeChar hcd _ _
  | cons _ ih => exact ih.append_left _

/-- The order of texts is the order of their bytes. -/
theorem compare_eq_lt_iff_precedes {a b : String} : compare a b = .lt ↔ Precedes a b := by
  have hlt : ∀ {a b : String}, compare a b = .lt → Precedes a b := by
    intro a b h
    exact bytesBefore_utf8 (String.lt_iff.1 (compareOfLessAndEq_eq_lt.1 h))
  refine ⟨hlt, fun h => ?_⟩
  cases hcompare : compare a b with
  | lt => rfl
  | eq =>
    obtain rfl := Std.LawfulEqOrd.compare_eq_iff_eq.1 hcompare
    exact absurd h h.asymm
  | gt => exact absurd h (hlt (Std.OrientedCmp.lt_of_gt hcompare)).asymm

end SchemaDrift.Text

import SchemaDrift.Text.Utf8

/-!
# Slices at offsets of bytes

Offsets into a text are counted in bytes. A text can be cut at an offset that is not past its end
and not inside a character (`cutAt?_eq_some_iff`), and a slice between two offsets exists exactly if
the text can be cut at both and they are in order (`slice?_eq_some_iff`).
-/

namespace SchemaDrift.Text

variable {s x y z : List Char} {n : Nat}

/-- The number of bytes of a text. -/
def byteSize (s : List Char) : Nat :=
  (utf8 s).length

/-- The empty text has no bytes. -/
@[simp] theorem byteSize_nil : byteSize [] = 0 :=
  rfl

/-- The bytes of two texts are counted together. -/
@[simp] theorem byteSize_append (s t : List Char) :
    byteSize (s ++ t) = byteSize s + byteSize t := by
  simp [byteSize, utf8]

/-- The bytes of a text are those of its first character and of the rest. -/
@[simp] theorem byteSize_cons (c : Char) (s : List Char) :
    byteSize (c :: s) = c.utf8Size + byteSize s := by
  simp [byteSize, utf8]

/-- What stands before and behind an offset of bytes. There is nothing past the end of a text, and
no character is taken apart. -/
def cutAt? : (offset : Nat) → List Char → Option (List Char × List Char)
  | 0, s => some ([], s)
  | _ + 1, [] => none
  | offset + 1, c :: s =>
    if c.utf8Size ≤ offset + 1 then
      (cutAt? (offset + 1 - c.utf8Size) s).map fun cut => (c :: cut.1, cut.2)
    else none

/-- The text between two offsets of bytes, if they are in order and the text can be cut at both. -/
def slice? (s : List Char) (start stop : Nat) : Option (List Char) :=
  if start ≤ stop then
    (cutAt? stop s).bind fun cut => (cutAt? start cut.1).map (·.2)
  else none

/-- A text is cut where the bytes of its beginning end. -/
theorem cutAt?_append (x y : List Char) : cutAt? (byteSize x) (x ++ y) = some (x, y) := by
  induction x with
  | nil => simp [cutAt?]
  | cons c x ih =>
    have hpos := c.utf8Size_pos
    obtain ⟨n, hn⟩ : ∃ n, byteSize (c :: x) = n + 1 :=
      ⟨byteSize (c :: x) - 1, by rw [byteSize_cons]; omega⟩
    have hle : c.utf8Size ≤ n + 1 := by rw [← hn, byteSize_cons]; omega
    have hrest : n + 1 - c.utf8Size = byteSize x := by rw [← hn, byteSize_cons]; omega
    rw [hn, List.cons_append, cutAt?, if_pos hle, hrest, ih]
    rfl

/-- A text can be cut at the size of what it begins with, and only there. -/
theorem cutAt?_eq_some_iff : cutAt? n s = some (x, y) ↔ s = x ++ y ∧ n = byteSize x := by
  constructor
  · intro h
    fun_induction cutAt? n s generalizing x with
    | case1 s =>
      cases h
      exact ⟨rfl, rfl⟩
    | case2 => cases h
    | case3 offset c s hle ih =>
      obtain ⟨cut, hcut, heq⟩ := Option.map_eq_some_iff.1 h
      cases heq
      obtain ⟨rfl, hn⟩ := ih hcut
      exact ⟨rfl, by rw [byteSize_cons, ← hn]; omega⟩
    | case4 => cases h
  · rintro ⟨rfl, rfl⟩
    exact cutAt?_append x y

/-- A slice is a part of a text between the sizes of what stands before it and up to its end. -/
theorem slice?_eq_some_iff {start stop : Nat} : slice? s start stop = some y ↔
    ∃ x z, s = x ++ y ++ z ∧ start = byteSize x ∧ stop = byteSize (x ++ y) := by
  rw [slice?]
  constructor
  · intro h
    split at h
    · obtain ⟨⟨front, z⟩, hstop, h⟩ := Option.bind_eq_some_iff.1 h
      obtain ⟨⟨x, y'⟩, hstart, rfl⟩ := Option.map_eq_some_iff.1 h
      obtain ⟨rfl, rfl⟩ := cutAt?_eq_some_iff.1 hstop
      obtain ⟨rfl, rfl⟩ := cutAt?_eq_some_iff.1 hstart
      exact ⟨x, z, rfl, rfl, rfl⟩
    · cases h
  · rintro ⟨x, z, rfl, rfl, rfl⟩
    rw [if_pos (by rw [byteSize_append]; omega), cutAt?_append, Option.bind_some, cutAt?_append]
    rfl

/-- The slice at the bytes of two places that are in order is the text between them. -/
theorem slice?_take {start stop : Nat} (h : start ≤ stop) (s : List Char) :
    slice? s (byteSize (s.take start)) (byteSize (s.take stop)) =
      some ((s.drop start).take (stop - start)) := by
  have hstop : s.take stop = s.take start ++ (s.drop start).take (stop - start) := by
    rw [← List.take_add, Nat.add_sub_cancel' h]
  refine slice?_eq_some_iff.2 ⟨s.take start, s.drop stop, ?_, rfl, by rw [hstop]⟩
  rw [← hstop, List.take_append_drop]

end SchemaDrift.Text

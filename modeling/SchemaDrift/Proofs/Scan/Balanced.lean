import SchemaDrift.Scan.Bracket

/-!
# Balanced brackets

`balancedFrom` follows the brackets of one kind through the code of a text: none is closed that was
not opened, and all are closed at the end. The search for a closing bracket carries such a text over
whole (`enclosedIn_balanced`). If the three kinds of brackets are balanced, each by itself, they are
so together (`nestedFrom_of_balancedFrom`), even where brackets of two kinds overlap.
-/

namespace SchemaDrift.Scan

variable {opener closer : Char} {ps qs : List Piece} {m n : Nat}

/-- Whether the brackets of a kind are balanced in a text that begins inside a number of them. -/
def balancedFrom (opener closer : Char) : (depth : Nat) → List Piece → Bool
  | depth, [] => depth == 0
  | depth, .code c :: ps =>
    if c = opener then balancedFrom opener closer (depth + 1) ps
    else if c = closer then
      match depth with
      | 0 => false
      | depth + 1 => balancedFrom opener closer depth ps
    else balancedFrom opener closer depth ps
  | depth, _ :: ps => balancedFrom opener closer depth ps

/-- A text that closes the brackets it begins in leaves the outer ones open. -/
theorem balancedFrom_append (h : balancedFrom opener closer n ps) (m : Nat) (qs : List Piece) :
    balancedFrom opener closer (n + m) (ps ++ qs) = balancedFrom opener closer m qs := by
  fun_induction balancedFrom opener closer n ps with
  | case1 n =>
    obtain rfl := beq_iff_eq.1 h
    rw [Nat.zero_add, List.nil_append]
  | case2 n ps ih =>
    rw [← ih h, Nat.add_right_comm]
    simp [balancedFrom]
  | case3 ps hne => cases h
  | case4 ps n hne ih =>
    rw [← ih h, Nat.succ_add]
    simp [balancedFrom, hne]
  | case5 n c ps hopen hclose ih =>
    rw [← ih h]
    simp [balancedFrom, hopen, hclose]
  | case6 n p ps hcode ih =>
    rw [← ih h]
    cases p with
    | code c => exact absurd rfl (hcode c)
    | literal s => rfl
    | comment s => rfl

/-- A balanced text is carried over by the search for a closing bracket, at any depth. -/
theorem enclosedIn_balanced (h : balancedFrom opener closer n ps) (m : Nat) (qs : List Piece) :
    enclosedIn opener closer (n + m) (ps ++ qs) =
      (enclosedIn opener closer m qs).map (ps.flatMap Piece.text ++ ·) := by
  fun_induction balancedFrom opener closer n ps with
  | case1 n =>
    obtain rfl := beq_iff_eq.1 h
    simp
  | case2 n ps ih =>
    have hnext := ih h
    rw [Nat.add_right_comm] at hnext
    simp [enclosedIn, hnext, Piece.text, Function.comp_def]
  | case3 ps hne => cases h
  | case4 ps n hne ih =>
    rw [Nat.succ_add]
    simp [enclosedIn, hne, ih h, Piece.text, Function.comp_def]
  | case5 n c ps hopen hclose ih =>
    simp [enclosedIn, hopen, hclose, ih h, Piece.text, Function.comp_def]
  | case6 n p ps hcode ih =>
    cases p with
    | code c => exact absurd rfl (hcode c)
    | literal s => simp [enclosedIn, ih h, Piece.text, Function.comp_def]
    | comment s => simp [enclosedIn, ih h, Piece.text, Function.comp_def]

/-- Symbols other than the brackets of a kind are balanced. -/
theorem balancedFrom_codes {x : List Char} (hopen : opener ∉ x) (hclose : closer ∉ x) :
    balancedFrom opener closer 0 (x.map .code) := by
  induction x with
  | nil => rfl
  | cons c x ih =>
    rw [List.mem_cons, not_or] at hopen hclose
    simp [balancedFrom, Ne.symm hopen.1, Ne.symm hclose.1, ih hopen.2 hclose.2]

/-! ## All brackets together -/

/-- Whether no bracket of any kind is closed that was not opened, and all are closed at the end, in a
text that begins inside a number of them. -/
def nestedFrom : (depth : Nat) → List Piece → Bool
  | depth, [] => depth == 0
  | depth, .code c :: ps => (!isCloser c || depth != 0) && nestedFrom (depthAfter depth c) ps
  | depth, _ :: ps => nestedFrom depth ps

/-- A symbol opens a bracket of one of three kinds, or closes one, or does neither. -/
theorem isBracket_cases (c : Char) :
    (c = '(' ∨ c = '[' ∨ c = '{') ∨ (c = ')' ∨ c = ']' ∨ c = '}') ∨
      isOpener c = false ∧ isCloser c = false := by
  simp only [isOpener, isCloser, Bool.or_eq_false_iff, beq_eq_false_iff_ne]
  grind

/-- Brackets that are balanced kind by kind are balanced together. -/
theorem nestedFrom_of_balancedFrom {a b e : Nat} (ha : balancedFrom '(' ')' a ps)
    (hb : balancedFrom '[' ']' b ps) (he : balancedFrom '{' '}' e ps) :
    nestedFrom (a + b + e) ps := by
  induction ps generalizing a b e with
  | nil => simp_all [balancedFrom, nestedFrom]
  | cons p ps ih =>
    cases p with
    | literal s => exact ih ha hb he
    | comment s => exact ih ha hb he
    | code c =>
      obtain (rfl | rfl | rfl) | (rfl | rfl | rfl) | ⟨hopen, hclose⟩ := isBracket_cases c
      · have h := ih ha hb he
        rw [Nat.add_right_comm a, Nat.add_right_comm (a + b)] at h
        exact h
      · have h := ih ha hb he
        rw [← Nat.add_assoc a, Nat.add_right_comm (a + b)] at h
        exact h
      · have h := ih ha hb he
        rw [← Nat.add_assoc] at h
        exact h
      · cases a with
        | zero => cases ha
        | succ a =>
          have h := ih ha hb he
          have hdepth : a + 1 + b + e - 1 = a + b + e := by omega
          simpa [nestedFrom, depthAfter, isOpener, isCloser, hdepth] using h
      · cases b with
        | zero => cases hb
        | succ b =>
          have h := ih ha hb he
          have hdepth : a + (b + 1) + e - 1 = a + b + e := by omega
          simpa [nestedFrom, depthAfter, isOpener, isCloser, hdepth] using h
      · cases e with
        | zero => cases he
        | succ e => simpa [nestedFrom, depthAfter, isOpener, isCloser] using ih ha hb he
      · simp only [isOpener, isCloser, Bool.or_eq_false_iff, beq_eq_false_iff_ne] at hopen hclose
        simp only [balancedFrom, hopen, hclose, if_false] at ha hb he
        simpa [nestedFrom, depthAfter, isOpener, isCloser, hopen, hclose] using ih ha hb he

end SchemaDrift.Scan

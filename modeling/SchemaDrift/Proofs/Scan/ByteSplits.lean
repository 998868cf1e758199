import SchemaDrift.Proofs.Scan.Offsets
import SchemaDrift.Proofs.Scan.Statements
import SchemaDrift.Proofs.Text.Fragments

/-!
# Splits at bytes outside ASCII

A byte outside ASCII is part of a character, so a split at it cuts that character: the part before
ends inside the character, or the part behind begins inside it (`splitAtByte?_of_hasTopLevel`). The
split fails exactly if the byte stands in the code of the text outside brackets, and else it leaves
the text whole (`splitAtByte?_of_not_hasTopLevel`).
-/

namespace SchemaDrift.Scan

open SchemaDrift.Text

variable {d : Dialect} {sep : UInt8} {text : String} {s : List Char}

/-- Symbols of bytes are put together to a text exactly if the bytes are those of one. -/
theorem ofByteSymbols?_map (x : List UInt8) :
    ofByteSymbols? (x.map fun b => Char.ofNat b.toNat) = (decode? x).map String.ofList := by
  rw [ofByteSymbols?, List.map_map]
  refine congrArg (fun bytes => (decode? bytes).map String.ofList) ?_
  refine (List.map_congr_left fun b _ => ?_).trans (List.map_id x)
  rw [Function.comp_apply, toNat_ofNat_toNat]
  exact UInt8.ofNat_toNat

/-- The symbol of a byte is ASCII if the byte is below 128. -/
theorem isAscii_ofNat_toNat (b : UInt8) :
    isAscii (Char.ofNat b.toNat) = decide (b.toNat < 128) := by
  rw [isAscii, toNat_ofNat_toNat]

/-- Without a separator a text is its only part. -/
theorem splitTopLevel_of_not_hasTopLevel {sep : Char} (h : ¬ HasTopLevel d sep s) :
    splitTopLevel d sep s = [s] := by
  have hfree : separatorFree sep 0 (codePieces d s) := by
    rw [← separatorFree_eq_false_iff, Bool.not_eq_false] at h
    exact h
  have hsplit := splitPieces_of_separatorFree hfree []
  rw [List.append_nil, flatMap_text_codePieces] at hsplit
  rw [splitTopLevel, hsplit, splitPieces, List.append_nil]

/-- With a separator outside ASCII, a text falls into the part before the first one and the parts of
what stands behind it. -/
theorem exists_splitTopLevel_cons {sep : Char} (hsep : isAscii sep = false)
    (h : HasTopLevel d sep s) :
    ∃ x y, s = x ++ sep :: y ∧ splitTopLevel d sep s = x :: splitTopLevel d sep y := by
  obtain ⟨before, after, hps, hbefore, hdepth⟩ :=
    exists_first_separator (separatorFree_eq_false_iff.2 h)
  have htext := flatMap_text_codePieces (d := d) s
  rw [hps, List.flatMap_append, List.flatMap_cons] at htext
  have hcode : codePieces d s = (before ++ [.code sep]) ++ after := by rw [hps]; simp
  have hrest : codePieces d (after.flatMap Piece.text) = after :=
    pieces_of_append literalReader_spec hcode
  have hcut : separates sep 0 sep = true := by
    simp [separates, isBracket_of_not_isAscii hsep]
  refine ⟨before.flatMap Piece.text, after.flatMap Piece.text, htext.symm, ?_⟩
  rw [splitTopLevel, hps, splitPieces_of_separatorFree hbefore, hdepth, splitPieces, if_pos hcut,
    depthAfter_of_not_isAscii hsep, List.append_nil, splitTopLevel, hrest]

/-- A symbol outside ASCII that is no separator begins the first part of a text. -/
theorem exists_splitTopLevel_of_ne {sep c : Char} (hc : isAscii c = false) (hne : c ≠ sep)
    (s : List Char) : ∃ part later, splitTopLevel d sep (c :: s) = (c :: part) :: later := by
  have hno : separates sep 0 c = false := by simp [separates, hne]
  rw [splitTopLevel, codePieces_of_none (literal?_of_not_isAscii hc s), splitPieces, hno]
  exact ⟨_, _, rfl⟩

/-- A split at a byte outside ASCII fails where that byte stands outside literals and brackets,
since it cuts the character of the byte. -/
theorem splitAtByte?_of_hasTopLevel (hsep : 128 ≤ sep.toNat)
    (h : HasTopLevel d (Char.ofNat sep.toNat) (byteSymbols text)) :
    splitAtByte? d sep text = none := by
  have hascii : isAscii (Char.ofNat sep.toNat) = false := by
    rw [isAscii_ofNat_toNat, decide_eq_false_iff_not]
    omega
  obtain ⟨x, y, hsymbols, hsplit⟩ := exists_splitTopLevel_cons hascii h
  obtain ⟨bx, rest, hbytes, rfl, hrest⟩ := List.map_eq_append_iff.1 hsymbols
  obtain ⟨b, bytesBehind, rfl, hb, rfl⟩ := List.map_eq_cons_iff.1 hrest
  obtain rfl : b = sep := by
    have hcode := congrArg Char.toNat hb
    rw [toNat_ofNat_toNat, toNat_ofNat_toNat] at hcode
    exact UInt8.toNat_inj.1 hcode
  obtain ⟨front, c, behind, p, q, -, hc, rfl, rfl⟩ := exists_char_of_utf8_eq hbytes
  rw [splitAtByte?, hsplit, List.mapM_cons, ofByteSymbols?_map]
  by_cases hp : p = []
  · -- The byte is the first of its character, and the next part begins with the second.
    subst hp
    obtain ⟨e, q', rfl, he, hrefused, hne⟩ := exists_continuation hc hsep
    have hsymbol : isAscii (Char.ofNat e.toNat) = false := by
      rw [isAscii_ofNat_toNat, decide_eq_false_iff_not]
      omega
    have hother : Char.ofNat e.toNat ≠ Char.ofNat b.toNat := by
      intro heq
      have hcode := congrArg Char.toNat heq
      rw [toNat_ofNat_toNat, toNat_ofNat_toNat] at hcode
      exact hne (UInt8.toNat_inj.1 hcode)
    obtain ⟨part, later, hparts⟩ := exists_splitTopLevel_of_ne (d := d) hsymbol hother
      ((q' ++ utf8 behind).map fun b => Char.ofNat b.toNat)
    have hpart : ofByteSymbols? (Char.ofNat e.toNat :: part) = none := by
      rw [ofByteSymbols?, List.map_cons, toNat_ofNat_toNat, UInt8.ofNat_toNat,
        decode?_of_refused hrefused]
      rfl
    rw [List.cons_append, List.map_cons, hparts, List.mapM_cons, hpart]
    cases decode? (utf8 front ++ []) <;> rfl
  · rw [decode?_of_cut hc hp]
    rfl

/-- A text is not split at a byte that stands outside brackets nowhere. -/
theorem splitAtByte?_of_not_hasTopLevel
    (h : ¬ HasTopLevel d (Char.ofNat sep.toNat) (byteSymbols text)) :
    splitAtByte? d sep text = some [text] := by
  rw [splitAtByte?, splitTopLevel_of_not_hasTopLevel h, List.mapM_cons,
    ofByteSymbols?_byteSymbols]
  rfl

end SchemaDrift.Scan

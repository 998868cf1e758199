import SchemaDrift.Proofs.Migration.Checked
import SchemaDrift.Proofs.Query.Checked
import SchemaDrift.Proofs.RowType.Checked
import SchemaDrift.Proofs.Scan.ByteSplits

/-!
# Cuts between characters

The extractors read texts by offsets of bytes. In checked steps, where an offset past the end, an
offset inside a character and a depth below zero each make the step fail, they give what they give
by characters, so that no step fails on any migrations, type file or query modules. A split at a
byte of ASCII does not fail either. A split at another byte fails exactly where it would cut a
character: where the byte stands in the code of the text outside brackets.
-/

namespace SchemaDrift

open Scan

/-- No extractor fails in a checked step. A split at a byte of ASCII gives the parts of the text,
and a split at another byte fails if the byte stands in code outside brackets, and else leaves the
text whole. -/
theorem extraction_cuts_no_character (migrations : List Source) (types : Source)
    (pairing : Pairing) (modules : List Source) (d : Dialect) (sep : UInt8) (text : String) :
    Migration.checkedExtract migrations = some (Migration.extract migrations) ∧
      RowType.checkedExtract types = some (RowType.extract types) ∧
      Query.checkedExtract pairing modules = some (Query.extract pairing modules) ∧
      (sep.toNat < 128 → splitAtByte? d sep text =
        some ((splitTopLevel d (Char.ofNat sep.toNat) text.toList).map String.ofList)) ∧
      (128 ≤ sep.toNat →
        (splitAtByte? d sep text = none ↔
          HasTopLevel d (Char.ofNat sep.toNat) (byteSymbols text)) ∧
        (¬ HasTopLevel d (Char.ofNat sep.toNat) (byteSymbols text) →
          splitAtByte? d sep text = some [text])) := by
  refine ⟨Migration.checkedExtract_eq migrations, RowType.checkedExtract_eq types,
    Query.checkedExtract_eq pairing modules, fun hsep => ?_,
    fun hsep => ⟨⟨fun hnone => ?_, ?_⟩, ?_⟩⟩
  · exact splitAtByte?_of_isAscii (by rw [isAscii_ofNat_toNat, decide_eq_true hsep]) d text
  · -- Where the byte does not stand in such code, the split has a part.
    by_contra hno
    rw [splitAtByte?_of_not_hasTopLevel hno] at hnone
    cases hnone
  · exact splitAtByte?_of_hasTopLevel hsep
  · exact splitAtByte?_of_not_hasTopLevel

/-- A migration, a type file and a query module in which characters of several bytes stand beside
every cut. -/
theorem extraction_cuts_no_character_accented :
    (Migration.checkedExtract
        [⟨"m", "/*é*/CREATE TABLE é.t (\"é\" int REFERENCES u(\"à\"),b text);"⟩]).isSome ∧
      (RowType.checkedExtract ⟨"d", "t: \x7b Row: \x7b 'é': 'à'; b: Ü \x7d \x7d"⟩).isSome ∧
      (Query.checkedExtract .nearest [⟨"q", "sb.from('t').or('é.eq.à,b.eq.ü')"⟩]).isSome ∧
      splitAtByte? .sql 44 "é,(à,b)" = some ["é", "(à,b)"] ∧
      splitAtByte? .sql 195 "é" = none ∧
      splitAtByte? .sql 195 "(é) 'é'" = some ["(é) 'é'"] := by
  have hcomma := extraction_cuts_no_character
    [⟨"m", "/*é*/CREATE TABLE é.t (\"é\" int REFERENCES u(\"à\"),b text);"⟩]
    ⟨"d", "t: \x7b Row: \x7b 'é': 'à'; b: Ü \x7d \x7d"⟩ .nearest
    [⟨"q", "sb.from('t').or('é.eq.à,b.eq.ü')"⟩] .sql 44 "é,(à,b)"
  have hcut := (extraction_cuts_no_character [] ⟨"", ""⟩ .nearest [] .sql 195 "é").2.2.2.2
    (by decide)
  have hwhole := (extraction_cuts_no_character [] ⟨"", ""⟩ .nearest [] .sql 195 "(é) 'é'").2.2.2.2
    (by decide)
  have hparts : splitTopLevel .sql (Char.ofNat (44 : UInt8).toNat) "é,(à,b)".toList =
      ["é".toList, "(à,b)".toList] := by decide +kernel
  refine ⟨by rw [hcomma.1]; rfl, by rw [hcomma.2.1]; rfl, by rw [hcomma.2.2.1]; rfl, ?_,
    hcut.1.2 ⟨[], [.code '©'], by decide +kernel, depthFrom_zero_iff.1 rfl⟩,
    hwhole.2 fun htop => ?_⟩
  · rw [hcomma.2.2.2.1 (by decide), hparts]
    decide +kernel
  · have hfree : separatorFree (Char.ofNat (195 : UInt8).toNat) 0
        (codePieces .sql (byteSymbols "(é) 'é'")) := by decide +kernel
    rw [← separatorFree_eq_false_iff, hfree] at htop
    cases htop

end SchemaDrift

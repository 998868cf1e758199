import SchemaDrift.Scan.Bracket
import SchemaDrift.Text.Utf8

/-!
# Scanning by byte offsets

The scanner on whole texts, with offsets counted in bytes of UTF-8. A text is read byte by byte,
each byte standing as the character with that code, so an offset may be any number.
-/

namespace SchemaDrift.Scan

open SchemaDrift.Text

/-- The bytes of a text as symbols. -/
def byteSymbols (text : String) : List Char :=
  (utf8 text.toList).map fun b => Char.ofNat b.toNat

/-- The text that a run of byte symbols encodes, if it encodes one. -/
def ofByteSymbols? (symbols : List Char) : Option String :=
  (decode? (symbols.map fun c => UInt8.ofNat c.toNat)).map String.ofList

/-- The offset of the bracket that closes the one at an offset. -/
def closingOffset? (d : Dialect) (text : String) (offset : Nat) : Option Nat :=
  (enclosed? d ((byteSymbols text).drop offset)).map fun inside => offset + 1 + inside.length

/-- The offset of the first semicolon from an offset on that stands outside literals and brackets,
or the size of the text. -/
def statementEnd (d : Dialect) (text : String) (offset : Nat) : Nat :=
  let symbols := byteSymbols text
  if offset ≤ symbols.length then offset + (statement d (symbols.drop offset)).length
  else symbols.length

/-- The parts of a text between separating bytes, if no part is cut inside a character. -/
def splitAtByte? (d : Dialect) (sep : UInt8) (text : String) : Option (List String) :=
  (splitTopLevel d (Char.ofNat sep.toNat) (byteSymbols text)).mapM ofByteSymbols?

end SchemaDrift.Scan

/-!
# Bytes and characters

Encoding in UTF-8, and decoding by a machine that reads one byte at a time. Each longest run of
bytes that begins no character yields one ill-formed part: `decode?` refuses a byte sequence that
has such a part, and `decodeLossy` puts the replacement character in its place.
-/

namespace SchemaDrift.Text

/-- The bytes of a text. -/
def utf8 (s : List Char) : List UInt8 :=
  s.flatMap String.utf8EncodeChar

/-- A character of which some bytes were read: its bits so far, how many bytes it lacks, and the
range in which the next of them must lie. -/
structure Unfinished where
  bits : Nat
  lacking : Nat
  low : Nat
  high : Nat
deriving DecidableEq

/-- What a byte does to a decoder. -/
inductive ByteEffect
  | completes (c : Char)
  | continues (u : Unfinished)
  | refused

/-- The effect of a byte where a character may begin. -/
def firstByte (b : Nat) : ByteEffect :=
  if b < 0x80 then .completes (Char.ofNat b)
  else if b < 0xC2 then .refused
  else if b < 0xE0 then .continues ⟨b - 0xC0, 1, 0x80, 0xBF⟩
  else if b = 0xE0 then .continues ⟨0, 2, 0xA0, 0xBF⟩
  else if b = 0xED then .continues ⟨0xD, 2, 0x80, 0x9F⟩
  else if b < 0xF0 then .continues ⟨b - 0xE0, 2, 0x80, 0xBF⟩
  else if b = 0xF0 then .continues ⟨0, 3, 0x90, 0xBF⟩
  else if b < 0xF4 then .continues ⟨b - 0xF0, 3, 0x80, 0xBF⟩
  else if b = 0xF4 then .continues ⟨4, 3, 0x80, 0x8F⟩
  else .refused

/-- The effect of a byte on an unfinished character. -/
def Unfinished.nextByte (u : Unfinished) (b : Nat) : ByteEffect :=
  if b < u.low || u.high < b then .refused
  else
    let bits := u.bits * 64 + (b - 0x80)
    if u.lacking ≤ 1 then .completes (Char.ofNat bits)
    else .continues ⟨bits, u.lacking - 1, 0x80, 0xBF⟩

/-- The parts a byte finishes, `none` for an ill-formed one, and the character then under way. A
byte that an unfinished character refuses may begin a new one. -/
def decodeByte (u : Option Unfinished) (b : UInt8) : List (Option Char) × Option Unfinished :=
  let fresh := match firstByte b.toNat with
    | .completes c => ([some c], none)
    | .continues u => ([], some u)
    | .refused => ([none], none)
  match u with
  | none => fresh
  | some u => match u.nextByte b.toNat with
    | .completes c => ([some c], none)
    | .continues u => ([], some u)
    | .refused => (none :: fresh.1, fresh.2)

/-- The characters and ill-formed parts of a byte sequence, in order. -/
def decodeParts : Option Unfinished → List UInt8 → List (Option Char)
  | none, [] => []
  | some _, [] => [none]
  | u, b :: bs => (decodeByte u b).1 ++ decodeParts (decodeByte u b).2 bs

/-- The text of a byte sequence, if every part of it is well formed. -/
def decode? (bytes : List UInt8) : Option (List Char) :=
  (decodeParts none bytes).mapM id

/-- The text of a byte sequence with U+FFFD for every ill-formed part. -/
def decodeLossy (bytes : List UInt8) : List Char :=
  (decodeParts none bytes).map fun part => part.getD '\ufffd'

end SchemaDrift.Text

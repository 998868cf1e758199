/-!
# Rounding quotients and binary fractions

`roundDiv` rounds a quotient to the nearest whole number, a half to the even one. A double is an
exact binary fraction, so its decimals come from rounding one quotient.
-/

namespace SchemaDrift.Number

/-- The whole number nearest to a quotient; of two equally near, the even one. -/
def roundDiv (num den : Nat) : Nat :=
  let q := num / den
  let r := num % den
  if 2 * r < den then q
  else if den < 2 * r then q + 1
  else if q % 2 = 0 then q
  else q + 1

/-- The numerator and the denominator of the binary fraction with given bits, as far as the sign is
positive and the value finite. -/
def fractionOfBits (bits : Nat) : Nat × Nat :=
  let e := bits / Nat.pow 2 52 % Nat.pow 2 11
  let f := bits % Nat.pow 2 52
  let m := if e = 0 then f else Nat.pow 2 52 + f
  let e := max e 1
  if 1075 ≤ e then (m * Nat.pow 2 (e - 1075), 1) else (m, Nat.pow 2 (1075 - e))

/-- A number of tenths with its decimal point. -/
def showTenths (tenths : Nat) : String :=
  toString (tenths / 10) ++ "." ++ toString (tenths % 10)

/-- A number with one decimal, of which the exact value is rounded. -/
def oneDecimal (x : Float) : String :=
  let (num, den) := fractionOfBits x.toBits.toNat
  showTenths (roundDiv (num * 10) den)

end SchemaDrift.Number

/-!
# Reading decimal numbers

The value of a run of digits, and the floating-point number nearest to
`digits · 10 ^ exponent`. Sizes far outside the range of the format are settled
by their magnitude, so that no power of ten is ever larger than it has to be.
-/

namespace Shaderwright.Decimal

/-- The value of a digit, also of the letters used above nine. -/
def digitValue (c : Char) : Nat :=
  if c.isDigit then c.toNat - '0'.toNat
  else if 'a' ≤ c ∧ c ≤ 'z' then c.toNat - 'a'.toNat + 10
  else c.toNat - 'A'.toNat + 10

/-- The number written by digits in a base, most significant first. -/
def ofDigits (base : Nat) (cs : List Char) : Nat :=
  cs.foldl (fun n c => n * base + digitValue c) 0

/-- The number nearest to `mantissa · 10 ^ exponent`. -/
def nearest (negative : Bool) (mantissa : Nat) (exponent : Int) : Float :=
  let size := ((Nat.toDigits 10 mantissa).length : Int) + exponent
  let magnitude : Float :=
    if mantissa = 0 ∨ size < -400 then 0
    else if 400 < size then Float.ofBits 0x7FF0000000000000
    else if 0 ≤ exponent then Float.ofScientific (mantissa * Nat.pow 10 exponent.toNat) false 0
    else Float.ofScientific mantissa true exponent.natAbs
  if negative then -magnitude else magnitude

end Shaderwright.Decimal

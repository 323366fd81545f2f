import Shaderwright.Decimal.Shortest

/-!
# Layouts of a decimal number

Positional text always carries a point and a digit on each side of it;
scientific text has one digit before the point, no point when there are no more
digits, and a bare exponent. `general` is positional from `10 ^ -4` up to, not
including, `10 ^ 16`, and for zero; `plain` is positional throughout; `tenths`
rounds the exact value to one decimal, an exact half to the even neighbour.
-/

namespace Shaderwright.Decimal

/-- The decimal digits of a number, most significant first. -/
def digitsOf (n : Nat) : List Char := Nat.toDigits 10 n

def zeros (n : Nat) : List Char := List.replicate n '0'

def sign (negative : Bool) : List Char := if negative then ['-'] else []

/-- Puts the point before the last `places` digits, with a zero before it if no
digit is left there. -/
def pointed (places : Nat) (ds : List Char) : List Char :=
  if places < ds.length then
    ds.take (ds.length - places) ++ '.' :: ds.drop (ds.length - places)
  else
    '0' :: '.' :: (zeros (places - ds.length) ++ ds)

/-- Every digit in its place; whole numbers end in `.0`. -/
def positional (x : Scaled) : List Char :=
  if 0 ≤ x.scale then
    digitsOf x.digits ++ zeros x.scale.toNat ++ ['.', '0']
  else
    pointed (-x.scale).toNat (digitsOf x.digits)

/-- The power of ten of the first digit. -/
def Scaled.exponent (x : Scaled) : Int :=
  x.scale + ((digitsOf x.digits).length : Int) - 1

def exponentText (e : Int) : List Char :=
  'e' :: (sign (decide (e < 0)) ++ digitsOf e.natAbs)

/-- One digit, the others behind a point, and the power of ten. -/
def scientific (x : Scaled) : List Char :=
  match digitsOf x.digits with
  | [] => exponentText x.exponent
  | [d] => d :: exponentText x.exponent
  | d :: e :: rest => d :: '.' :: e :: (rest ++ exponentText x.exponent)

/-- Positional for exponents from -4 to 15, scientific outside. -/
def unsigned (x : Scaled) : List Char :=
  if -4 ≤ x.exponent ∧ x.exponent < 16 then positional x else scientific x

/-- The text of a number, given the layout of its positive values. -/
def laidOut (f : Format) (layout : Scaled → List Char) : Binary → List Char
  | .nan => ['N', 'a', 'N']
  | .infinite negative => sign negative ++ ['i', 'n', 'f']
  | .finite negative mantissa exponent =>
      sign negative ++
        if mantissa = 0 then ['0', '.', '0'] else layout (shortest f mantissa exponent)

/-- The fewest digits, positional or scientific by size. -/
def general (f : Format) (bits : Nat) : String :=
  String.ofList (laidOut f unsigned (f.decode bits))

/-- The fewest digits, positional whatever the size. -/
def plain (f : Format) (bits : Nat) : String :=
  String.ofList (laidOut f positional (f.decode bits))

def ofFloat (x : Float) : String := general double x.toBits.toNat

def ofFloat32 (x : Float32) : String := general single x.toBits.toNat

/-! ## One decimal -/

/-- The whole number nearest to `n / d`, an exact half going to the even one. -/
def roundDiv (n d : Nat) : Nat :=
  let q := n / d
  let r := n % d
  if 2 * r < d then q
  else if d < 2 * r then q + 1
  else if q % 2 = 0 then q else q + 1

/-- The exact value rounded to tenths. -/
def tenths (b : Binary) : String :=
  match b with
  | .nan => "NaN"
  | .infinite negative => String.ofList (sign negative ++ ['i', 'n', 'f'])
  | .finite negative mantissa exponent =>
      let n := roundDiv (mantissa * Nat.pow 2 exponent.toNat * 10) (Nat.pow 2 (-exponent).toNat)
      String.ofList (sign negative ++ pointed 1 (digitsOf n))

end Shaderwright.Decimal

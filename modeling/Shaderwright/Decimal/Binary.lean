/-!
# Binary floating-point numbers

A stored number is read into its exact value, `mantissa · 2 ^ exponent`, so that
everything said about its decimal text is arithmetic on natural numbers.
-/

namespace Shaderwright.Decimal

/-- An interchange format, by the widths of its fraction and exponent fields. -/
structure Format where
  fractionBits : Nat
  exponentBits : Nat
deriving DecidableEq, Repr

def single : Format := ⟨23, 8⟩

def double : Format := ⟨52, 11⟩

/-- What a bit pattern stands for. -/
inductive Binary where
  | nan
  | infinite (negative : Bool)
  | finite (negative : Bool) (mantissa : Nat) (exponent : Int)
deriving DecidableEq, Repr

namespace Format

def bias (f : Format) : Nat := Nat.pow 2 (f.exponentBits - 1) - 1

/-- Exponent of the subnormal numbers, the least there is. -/
def leastExponent (f : Format) : Int := 1 - (f.bias : Int) - (f.fractionBits : Int)

/-- Mantissa of the powers of two: the hidden bit alone. -/
def hiddenBit (f : Format) : Nat := Nat.pow 2 f.fractionBits

/-- Reads sign, exponent field and fraction field. -/
def decode (f : Format) (bits : Nat) : Binary :=
  let fraction := bits % f.hiddenBit
  let fields := Nat.pow 2 f.exponentBits
  let field := bits / f.hiddenBit % fields
  let negative := decide (bits / f.hiddenBit / fields % 2 = 1)
  if field = fields - 1 then
    if fraction = 0 then .infinite negative else .nan
  else if field = 0 then
    .finite negative fraction f.leastExponent
  else
    .finite negative (f.hiddenBit + fraction) (f.leastExponent + (field : Int) - 1)

end Format

end Shaderwright.Decimal

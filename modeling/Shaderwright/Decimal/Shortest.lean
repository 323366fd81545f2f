import Shaderwright.Decimal.Binary

/-!
# The fewest digits that read back

The reals that round to a given binary number form an interval around it, ends
included when the mantissa is even. The text of the number is a point of the
coarsest grid `{ d · 10 ^ k }` that meets the interval: the nearer of the
number's two neighbours on that grid if both lie inside, the upper one when they
are equally near.
-/

namespace Shaderwright.Decimal

/-- The decimal number `digits · 10 ^ scale`. -/
structure Scaled where
  digits : Nat
  scale : Int
deriving DecidableEq, Repr

/-- A positive number and the interval that rounds to it, all in quarters of the
number's last binary place, `2 ^ (exponent - 2)`. -/
structure Interval where
  low : Nat
  value : Nat
  high : Nat
  closed : Bool
  exponent : Int
deriving DecidableEq, Repr

/-- The interval of `mantissa · 2 ^ exponent`. Below a power of two the numbers
lie twice as close, so the lower half of its interval is half as long. -/
def Interval.around (f : Format) (mantissa : Nat) (exponent : Int) : Interval where
  low :=
    if mantissa = f.hiddenBit ∧ f.leastExponent < exponent then 4 * mantissa - 1
    else 4 * mantissa - 2
  value := 4 * mantissa
  high := 4 * mantissa + 2
  closed := mantissa % 2 = 0
  exponent := exponent - 2

namespace Interval

/-- A length of the interval, on the scale on which neighbours of the grid `10 ^ k`
are `step k` apart. -/
def measure (i : Interval) (k : Int) (length : Nat) : Nat :=
  length * Nat.pow 2 i.exponent.toNat * Nat.pow 10 (-k).toNat

/-- The distance of neighbours of the grid `10 ^ k`, on the scale of `measure`. -/
def step (i : Interval) (k : Int) : Nat :=
  Nat.pow 2 (-i.exponent).toNat * Nat.pow 10 k.toNat

/-- Whether the point `d · 10 ^ k` lies in the interval. -/
def holds (i : Interval) (k : Int) (d : Nat) : Bool :=
  if i.closed then
    i.measure k i.low ≤ d * i.step k && d * i.step k ≤ i.measure k i.high
  else
    i.measure k i.low < d * i.step k && d * i.step k < i.measure k i.high

/-- The point of the grid `10 ^ k` that stands for the number, if the grid meets
the interval. -/
def onGrid? (i : Interval) (k : Int) : Option Scaled :=
  let below := i.measure k i.value / i.step k
  let above := below + 1
  let fromBelow := i.measure k i.value - below * i.step k
  let toAbove := above * i.step k - i.measure k i.value
  match i.holds k below, i.holds k above with
  | true, true => some ⟨if fromBelow < toAbove then below else above, k⟩
  | true, false => some ⟨below, k⟩
  | false, true => some ⟨above, k⟩
  | false, false => none

/-- A power of ten above every point of the interval. -/
def topScale (i : Interval) : Int :=
  ((Nat.log2 i.high : Int) + 1 + i.exponent) * 30103 / 100000 + 2

/-- The number itself, with all its digits. -/
def exact (i : Interval) : Scaled :=
  ⟨i.value * Nat.pow 2 i.exponent.toNat * Nat.pow 5 (-i.exponent).toNat, min i.exponent 0⟩

end Interval

/-- The shortest decimal that reads back as `mantissa · 2 ^ exponent`. -/
def shortest (f : Format) (mantissa : Nat) (exponent : Int) : Scaled :=
  let i := Interval.around f mantissa exponent
  ((List.range 24).findSome? fun (n : Nat) => i.onGrid? (i.topScale - (n : Int))).getD i.exact

end Shaderwright.Decimal

import Shaderwright.Decimal.Binary

/-!
# Bit patterns

The fields of a stored number: the sign is its top bit, and an exponent field of ones alone marks
the numbers that are not finite, NaN among them if the fraction is not zero. `decode` reads a
pattern accordingly (`decode_cases`), and the patterns of finite floats are those that the field
tells (`isFinite_double`, `isFinite_single`).

There is one float that is NaN, but there are many patterns of it, some with a sign.
-/

namespace Shaderwright.Decimal

namespace Format

/-- Whether a bit of the exponent field is zero. -/
def isFinite (f : Format) (bits : Nat) : Bool :=
  bits / f.hiddenBit % Nat.pow 2 f.exponentBits != Nat.pow 2 f.exponentBits - 1

def isNaN (f : Format) (bits : Nat) : Bool :=
  !f.isFinite bits && bits % f.hiddenBit != 0

/-- The sign, which also zeros and patterns of NaN have. -/
def isNegative (f : Format) (bits : Nat) : Bool := bits.testBit (f.fractionBits + f.exponentBits)

theorem isFinite_eq_false_iff {f : Format} {bits : Nat} :
    f.isFinite bits = false ↔
      bits / f.hiddenBit % Nat.pow 2 f.exponentBits = Nat.pow 2 f.exponentBits - 1 := by
  simp [isFinite]

theorem isNegative_eq (f : Format) (bits : Nat) :
    f.isNegative bits = decide (bits / f.hiddenBit / Nat.pow 2 f.exponentBits % 2 = 1) := by
  unfold isNegative hiddenBit
  rw [Nat.testBit_eq_decide_div_mod_eq, Nat.div_div_eq_div_mul, Nat.pow_add]
  rfl

/-- What a pattern is read as, by its fields. -/
theorem decode_cases (f : Format) (bits : Nat) :
    (f.isFinite bits = true ∧ f.isNaN bits = false ∧ ∃ mantissa exponent,
      f.decode bits = .finite (f.isNegative bits) mantissa exponent) ∨
    (f.isFinite bits = false ∧ f.isNaN bits = false ∧
      f.decode bits = .infinite (f.isNegative bits)) ∨
    (f.isFinite bits = false ∧ f.isNaN bits = true ∧ f.decode bits = .nan) := by
  rw [isNegative_eq]
  unfold decode isNaN
  dsimp only
  cases hfinite : f.isFinite bits with
  | true =>
      have hfield : ¬ bits / f.hiddenBit % Nat.pow 2 f.exponentBits
          = Nat.pow 2 f.exponentBits - 1 := by
        simpa [isFinite] using hfinite
      refine .inl ⟨rfl, rfl, ?_⟩
      rw [if_neg hfield]
      split
      · exact ⟨_, _, rfl⟩
      · exact ⟨_, _, rfl⟩
  | false =>
      have hfield : bits / f.hiddenBit % Nat.pow 2 f.exponentBits
          = Nat.pow 2 f.exponentBits - 1 := isFinite_eq_false_iff.1 hfinite
      rw [if_pos hfield]
      by_cases hfraction : bits % f.hiddenBit = 0
      · exact .inr (.inl ⟨rfl, by simp [hfraction], if_pos hfraction⟩)
      · exact .inr (.inr ⟨rfl, by simp [hfraction], if_neg hfraction⟩)

/-! ## Floats -/

section
open Float.Model (UnpackedFloat)
open Float.Model.UnpackedFloat

variable (spec : Float.Model.Format) (b : BitVec spec.numBits)

/-- The format with the same widths. -/
def ofModel : Format := ⟨spec.mantissaBitsWithoutImplicit, spec.exponentBits⟩

theorem toNat_unpackExponent :
    (unpackExponent b).toNat = b.toNat / Nat.pow 2 spec.mantissaBitsWithoutImplicit
      % Nat.pow 2 spec.exponentBits := by
  have hwidth : spec.mantissaBitsWithoutImplicit + spec.exponentBits - 1
      - spec.mantissaBitsWithoutImplicit + 1 = spec.exponentBits := by
    have := spec.he
    omega
  unfold unpackExponent
  rw [BitVec.toNat_cast, BitVec.extractLsb_toNat, hwidth, Nat.shiftRight_eq_div_pow]
  rfl

theorem unpackExponent_eq_iff :
    unpackExponent b = -1#_ ↔ (ofModel spec).isFinite b.toNat = false := by
  rw [isFinite_eq_false_iff, ← BitVec.toNat_inj, toNat_unpackExponent,
    BitVec.neg_one_eq_allOnes, BitVec.toNat_allOnes]
  rfl

theorem isFinite_unpack : (unpack spec b).isFinite = (ofModel spec).isFinite b.toNat := by
  have hexponent := unpackExponent_eq_iff spec b
  unfold unpack
  dsimp only
  by_cases h : unpackExponent b = -1#_
  · rw [if_pos h, hexponent.1 h]
    by_cases hmantissa : unpackMantissa b = 0#_
    · rw [if_pos hmantissa]
      rfl
    · rw [if_neg hmantissa]
      rfl
  · rw [if_neg h, Bool.of_not_eq_false (mt hexponent.2 h)]
    by_cases hzero : unpackExponent b = 0#_
    · rw [if_pos hzero]
      by_cases hmantissa : unpackMantissa b = 0#_
      · rw [dif_pos hmantissa]
        rfl
      · rw [dif_neg hmantissa]
        rfl
    · rw [if_neg hzero]
      rfl

end

theorem isFinite_double (x : Float) : double.isFinite x.toBits.toNat = x.isFinite :=
  (isFinite_unpack .binary64 x.toBits.toBitVec).symm

theorem isFinite_single (x : Float32) : single.isFinite x.toBits.toNat = x.isFinite :=
  (isFinite_unpack .binary32 x.toBits.toBitVec).symm

end Format

end Shaderwright.Decimal

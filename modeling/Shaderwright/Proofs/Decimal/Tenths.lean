import Mathlib.Algebra.Order.Field.Rat
import Mathlib.Data.Nat.Cast.Order.Field
import Mathlib.Tactic.FieldSimp
import Mathlib.Tactic.Linarith
import Mathlib.Tactic.NormNum
import Mathlib.Tactic.Ring
import Shaderwright.Decimal.Layout

/-!
# Numbers rounded to tenths

A finite bit pattern stands for a rational number, and what is written of it with one decimal is
the whole number of tenths nearest to it, of two such the even one (`exists_tenths`). A number
that is as near to some tenths as the format allows is rounded to these, if they are few enough
for the format to come within a twentieth of them (`Nearest.roundsTo`).
-/

namespace Shaderwright.Decimal

/-! ## Values -/

/-- The number that a finite pattern stands for. -/
def Binary.value? : Binary → Option ℚ
  | .nan | .infinite _ => none
  | .finite negative mantissa exponent =>
      some ((if negative then -1 else 1) * (mantissa * 2 ^ exponent))

/-- The value of a double. -/
def valueOf? (x : Float) : Option ℚ := (double.decode x.toBits.toNat).value?

namespace Format

/-- Some pattern of the format stands for the number. -/
def Represents (f : Format) (q : ℚ) : Prop := ∃ bits : ℕ, (f.decode bits).value? = some q

/-- A number of the format such that no other is nearer to `d`. -/
structure Nearest (f : Format) (d q : ℚ) : Prop where
  represents : f.Represents q
  le_of_represents : ∀ r, f.Represents r → |q - d| ≤ |r - d|

theorem decode_normal (f : Format) {field fraction : ℕ} (hpos : 0 < field)
    (hfield : field < Nat.pow 2 f.exponentBits - 1) (hfraction : fraction < f.hiddenBit) :
    f.decode (field * f.hiddenBit + fraction)
      = .finite false (f.hiddenBit + fraction) (f.leastExponent + field - 1) := by
  have hhidden : 0 < f.hiddenBit := Nat.zero_lt_of_lt hfraction
  have hmod : (field * f.hiddenBit + fraction) % f.hiddenBit = fraction := by
    rw [Nat.mul_comm, Nat.mul_add_mod, Nat.mod_eq_of_lt hfraction]
  have hdiv : (field * f.hiddenBit + fraction) / f.hiddenBit = field := by
    rw [Nat.mul_comm, Nat.mul_add_div hhidden, Nat.div_eq_of_lt hfraction, Nat.add_zero]
  have hlt : field < Nat.pow 2 f.exponentBits := by omega
  unfold decode
  simp only [hmod, hdiv, Nat.mod_eq_of_lt hlt, Nat.div_eq_of_lt hlt]
  rw [if_neg (by omega), if_neg (by omega)]
  rfl

theorem represents_normal (f : Format) {field mantissa : ℕ} (hpos : 0 < field)
    (hfield : field < Nat.pow 2 f.exponentBits - 1) (hle : f.hiddenBit ≤ mantissa)
    (hlt : mantissa < 2 * f.hiddenBit) :
    f.Represents (mantissa * 2 ^ (f.leastExponent + field - 1)) := by
  have hfraction : mantissa - f.hiddenBit < f.hiddenBit := by omega
  have hdecode := f.decode_normal hpos hfield hfraction
  refine ⟨_, (congrArg Binary.value? hdecode).trans ?_⟩
  rw [Nat.add_sub_cancel' hle]
  simp [Binary.value?]

end Format

/-- Numbers of thirty-two parts to the unit are doubles, as far as they are needed here. -/
theorem represents_div_thirtyTwo {k : ℕ} (hle : 32 ≤ k) (hlt : k < 8192) :
    double.Represents (k / 32) := by
  have hne : k ≠ 0 := by omega
  have hlow : 2 ^ k.log2 ≤ k := Nat.log2_self_le hne
  have hhigh : k < 2 ^ (k.log2 + 1) := Nat.lt_log2_self
  have hfirst : 5 ≤ k.log2 := (Nat.le_log2 hne).2 hle
  have hlast : k.log2 < 13 := (Nat.log2_lt hne).2 hlt
  -- The leading digit is moved to the place of the hidden bit.
  have hhidden : double.hiddenBit = 2 ^ k.log2 * 2 ^ (52 - k.log2) := by
    rw [← pow_add, Nat.add_sub_cancel' (by omega)]
    rfl
  have hfits : k * 2 ^ (52 - k.log2) < 2 * double.hiddenBit := by
    rw [hhidden, ← Nat.mul_assoc, Nat.mul_comm 2, ← pow_succ]
    exact Nat.mul_lt_mul_of_pos_right hhigh (Nat.two_pow_pos _)
  have hnormal : double.Represents
      ((k * 2 ^ (52 - k.log2) : ℕ) * 2 ^ (double.leastExponent + (k.log2 + 1018 : ℕ) - 1)) :=
    double.represents_normal (by omega) (by show _ < 2 ^ 11 - 1; omega)
      (hhidden ▸ Nat.mul_le_mul_right _ hlow) hfits
  have hscale : (2 : ℚ) ^ (52 - k.log2) * 2 ^ (double.leastExponent + (k.log2 + 1018 : ℕ) - 1)
      = 1 / 32 := by
    have hleast : double.leastExponent = -1074 := by decide
    have hexponent : ((52 - k.log2 : ℕ) : ℤ) + (double.leastExponent + (k.log2 + 1018 : ℕ) - 1)
        = -5 := by omega
    rw [← zpow_natCast, ← zpow_add₀ two_ne_zero, hexponent]
    norm_num
  rw [Nat.cast_mul, Nat.cast_pow, Nat.cast_ofNat, mul_assoc, hscale] at hnormal
  rwa [div_eq_mul_one_div]

/-! ## Rounding -/

/-- The whole number nearest to `q`, and of two such the even one. -/
structure RoundsTo (q : ℚ) (n : ℕ) : Prop where
  near : |q - n| ≤ 1 / 2
  even_of_half : |q - n| = 1 / 2 → n % 2 = 0

/-- There is one such number only. -/
theorem RoundsTo.unique {q : ℚ} {m n : ℕ} (hm : RoundsTo q m) (hn : RoundsTo q n) : m = n := by
  -- Of two numbers the smaller lies exactly a half below `q` and the larger a half above it.
  have hlt : ∀ {m n : ℕ}, RoundsTo q m → RoundsTo q n → ¬ m < n := by
    intro m n hm hn hlt
    have hnext : (m : ℚ) + 1 ≤ n := by exact_mod_cast hlt
    have hbelow := (abs_le.1 hm.near).2
    have habove := (abs_le.1 hn.near).1
    have hm' : q - m = 1 / 2 := by linarith
    have hn' : q - n = -(1 / 2) := by linarith
    have heven : m % 2 = 0 := hm.even_of_half (by rw [hm']; norm_num)
    have heven' : n % 2 = 0 := hn.even_of_half (by rw [hn']; norm_num)
    have hsucc : n = m + 1 := by
      have : (n : ℚ) = (m + 1 : ℕ) := by push_cast; linarith
      exact_mod_cast this
    omega
  exact Nat.le_antisymm (not_lt.1 (hlt hn hm)) (not_lt.1 (hlt hm hn))

section
variable {r d : ℕ}

theorem div_lt_half_iff (hd : 0 < d) : (r : ℚ) / d < 1 / 2 ↔ 2 * r < d := by
  rw [div_lt_div_iff₀ (Nat.cast_pos.2 hd) two_pos, one_mul, mul_comm]
  norm_cast

theorem half_lt_div_iff (hd : 0 < d) : 1 / 2 < (r : ℚ) / d ↔ d < 2 * r := by
  rw [div_lt_div_iff₀ two_pos (Nat.cast_pos.2 hd), one_mul, mul_comm]
  norm_cast

theorem div_eq_half_iff (hd : 0 < d) : (r : ℚ) / d = 1 / 2 ↔ 2 * r = d := by
  rw [div_eq_div_iff (Nat.cast_pos.2 hd).ne' two_ne_zero, one_mul, mul_comm]
  norm_cast

end

theorem roundsTo_roundDiv (n : ℕ) {d : ℕ} (hd : 0 < d) :
    RoundsTo (n / d) (roundDiv n d) := by
  have hd' : (0 : ℚ) < d := Nat.cast_pos.2 hd
  have hlow := div_lt_half_iff (r := n % d) hd
  have hhigh := half_lt_div_iff (r := n % d) hd
  have hhalf := div_eq_half_iff (r := n % d) hd
  have hlt_one : ((n % d : ℕ) : ℚ) / d < 1 := by
    rw [div_lt_one hd']
    exact_mod_cast Nat.mod_lt n hd
  have hnonneg : (0 : ℚ) ≤ (n % d : ℕ) / d := by positivity
  have hsplit : (n : ℚ) / d = (n / d : ℕ) + (n % d : ℕ) / d := by
    have hnat : ((n / d : ℕ) : ℚ) * d + (n % d : ℕ) = n := by exact_mod_cast Nat.div_add_mod' n d
    rw [← hnat, add_div, mul_div_cancel_right₀ _ hd'.ne']
  rw [hsplit]
  -- What is left of the division, as a part of the divisor.
  generalize ((n % d : ℕ) : ℚ) / d = t at hlow hhigh hhalf hlt_one hnonneg
  have hbelow : |((n / d : ℕ) : ℚ) + t - (n / d : ℕ)| = t := by
    rw [add_sub_cancel_left, abs_of_nonneg hnonneg]
  have habove : |((n / d : ℕ) : ℚ) + t - (n / d + 1 : ℕ)| = 1 - t := by
    rw [abs_sub_comm, abs_of_nonneg] <;> push_cast <;> linarith
  unfold roundDiv
  dsimp only
  split_ifs with h1 h2 h3
  · have ht := hlow.2 h1
    exact ⟨by rw [hbelow]; exact ht.le, fun h => absurd (hbelow ▸ h) ht.ne⟩
  · have ht := hhigh.2 h2
    refine ⟨by rw [habove]; linarith, fun h => ?_⟩
    rw [habove] at h
    linarith
  · have ht := hhalf.2 (by omega)
    exact ⟨by rw [hbelow, ht], fun _ => h3⟩
  · have ht := hhalf.2 (by omega)
    exact ⟨by rw [habove, ht]; norm_num, fun _ => by omega⟩

/-! ## One decimal -/

/-- With one decimal the last digit stands behind the point, and what is before it in front. -/
theorem pointed_one (n : ℕ) :
    pointed 1 (digitsOf n) = digitsOf (n / 10) ++ '.' :: digitsOf (n % 10) := by
  by_cases hn : n < 10
  · have hdigits : digitsOf n = [Nat.digitChar n] := Nat.toDigits_of_lt_base hn
    rw [Nat.div_eq_of_lt hn, Nat.mod_eq_of_lt hn, hdigits]
    rfl
  · have hdigits : digitsOf n = digitsOf (n / 10) ++ [Nat.digitChar (n % 10)] :=
      Nat.toDigits_of_base_le (by decide) (by omega)
    have hlast : digitsOf (n % 10) = [Nat.digitChar (n % 10)] :=
      Nat.toDigits_of_lt_base (Nat.mod_lt n (by decide))
    have hne : digitsOf (n / 10) ≠ [] := Nat.toDigits_ne_nil
    unfold pointed
    rw [hdigits, hlast, List.length_append, List.length_singleton,
      if_pos (Nat.lt_add_of_pos_left (List.length_pos_iff.2 hne)), Nat.add_sub_cancel,
      List.take_left, List.drop_left]

/-- **One decimal.** What is written of a finite number is the nearest whole number of tenths. -/
theorem exists_tenths (negative : Bool) (mantissa : ℕ) (exponent : ℤ) :
    ∃ n : ℕ, RoundsTo (10 * (mantissa * 2 ^ exponent)) n ∧
      tenths (.finite negative mantissa exponent)
        = String.ofList (sign negative ++ (digitsOf (n / 10) ++ '.' :: digitsOf (n % 10))) := by
  have hpos : 0 < Nat.pow 2 (-exponent).toNat := Nat.two_pow_pos _
  have hvalue : ((mantissa * Nat.pow 2 exponent.toNat * 10 : ℕ) : ℚ) / Nat.pow 2 (-exponent).toNat
      = 10 * (mantissa * 2 ^ exponent) := by
    obtain ⟨k, rfl | rfl⟩ := exponent.eq_nat_or_neg
    · simp [mul_comm]
    · simp only [neg_neg, Int.toNat_natCast, Int.toNat_neg_natCast, Nat.pow_eq, pow_zero, mul_one,
        Nat.cast_mul, Nat.cast_pow, Nat.cast_ofNat, zpow_neg, zpow_natCast]
      ring
  have hrounds := roundsTo_roundDiv (mantissa * Nat.pow 2 exponent.toNat * 10) hpos
  rw [hvalue] at hrounds
  refine ⟨_, hrounds, ?_⟩
  unfold tenths
  simp only [pointed_one]

/-- A double that is as near to a number of tenths as doubles come is rounded to these. -/
theorem Format.Nearest.roundsTo {n : ℕ} (hle : 10 ≤ n) (hlt : n < 2560) {q : ℚ}
    (h : double.Nearest (n / 10) q) : RoundsTo (10 * q) n := by
  -- Thirty-second parts come nearer to the tenths than half a tenth.
  obtain ⟨k, hk⟩ : ∃ k, k = (32 * n + 5) / 10 := ⟨_, rfl⟩
  have hclose : |(k : ℚ) / 32 - n / 10| ≤ 1 / 64 := by
    have hlow : (10 : ℚ) * k ≤ 32 * n + 5 := by exact_mod_cast (by omega : 10 * k ≤ 32 * n + 5)
    have hhigh : (32 : ℚ) * n ≤ 10 * k + 5 := by exact_mod_cast (by omega : 32 * n ≤ 10 * k + 5)
    rw [abs_le]
    constructor <;> linarith
  have hq : |q - n / 10| ≤ 1 / 64 :=
    (h.le_of_represents _ (represents_div_thirtyTwo (by omega) (by omega))).trans hclose
  have hten : |10 * q - n| = 10 * |q - n / 10| := by
    rw [(by ring : 10 * q - n = 10 * (q - n / 10)), abs_mul, abs_of_pos (by norm_num)]
  exact ⟨by rw [hten]; linarith, fun hhalf => by rw [hten] at hhalf; linarith⟩

end Shaderwright.Decimal

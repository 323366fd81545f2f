import Shaderwright.Proofs.Config.RoundTrip
import Shaderwright.Proofs.Decimal.Tenths

/-!
# Versions given as numbers

A configuration may give its language version as a number. What is read is the version whose
tenths are nearest to the number, half a tenth going to the even ones (`asVersion_number_iff`).
The number that the text of a version is rounded to is therefore read as that version. But so is
any other number within half a tenth of it: a quarter after the point is rounded away, where the
text with both its digits is refused (`quarter_rounded_away`).
-/

namespace Shaderwright

open Toml (Value)
open Decimal

/-! ## Versions as tenths -/

namespace Version

/-- A version as a number of tenths. -/
def tenths (v : Version) : ℕ := 10 * v.major.toNat + v.minor.toNat

/-- The bounds of the versions that can be read. -/
structure InRange (v : Version) : Prop where
  one_le_major : 1 ≤ v.major.toNat
  minor_le : v.minor.toNat ≤ 9

theorem InRange.bounds {v : Version} (h : v.InRange) : 10 ≤ v.tenths ∧ v.tenths < 2560 := by
  have hmajor := h.one_le_major
  have hminor := h.minor_le
  have hbyte := v.major.toNat_lt
  unfold tenths
  omega

theorem InRange.parse_text {v : Version} (h : v.InRange) : parse v.text = .ok v := by
  have hbyte := v.major.toNat_lt
  exact parse_eq_ok_iff.2
    (spells_repr_iff.2 ⟨rfl, rfl, h.one_le_major, by omega, h.minor_le⟩)

/-- Tenths are read as the version that has so many of them. -/
theorem parse_tenths_iff {n : ℕ} {v : Version} :
    parse (Nat.repr (n / 10) ++ "." ++ Nat.repr (n % 10)) = .ok v ↔ v.InRange ∧ v.tenths = n := by
  rw [parse_eq_ok_iff, spells_repr_iff]
  have hbyte := v.major.toNat_lt
  unfold tenths
  constructor
  · rintro ⟨hmajor, hminor, hpos, -, -⟩
    exact ⟨⟨by omega, by omega⟩, by omega⟩
  · rintro ⟨⟨hpos, hle⟩, rfl⟩
    refine ⟨by omega, by omega, by omega, by omega, by omega⟩

/-- A text that begins with a minus sign spells no version. -/
theorem not_spells_of_minus {t : String} {rest : List Char} (h : t.toList = '-' :: rest)
    (major minor : ℕ) : ¬ Spells t major minor := by
  rintro ⟨⟨before, after, ⟨⟨lead, trail, htext, hlead, -⟩, -, -⟩, hmajor, -⟩, -, -, -⟩
  rw [h] at htext
  cases lead with
  | cons c lead =>
      obtain ⟨rfl, -⟩ := List.cons.inj htext
      exact absurd (List.all_eq_true.1 hlead '-' List.mem_cons_self) (by decide)
  | nil =>
      cases before with
      | nil => exact absurd (List.cons.inj htext).1 (by decide)
      | cons c before =>
          obtain ⟨rfl, -⟩ := List.cons.inj htext
          rcases hmajor with hmajor | ⟨ds, heq, -⟩
          · exact absurd (List.all_eq_true.1 hmajor.spec.2.1 '-' List.mem_cons_self) (by decide)
          · exact absurd (List.cons.inj heq).1 (by decide)

end Version

/-! ## Numbers -/

namespace Toml.Value

/-- The number that a value is; a whole number is taken for a double. -/
def number? : Value → Option Float
  | .integer n => some (Float.ofInt n)
  | .float x => some x
  | .string _ | .boolean _ | .datetime _ | .array _ | .table _ => none

theorem asVersion_of_number {value : Value} {x : Float} (h : value.number? = some x) :
    value.asVersion = versionOfNumber x := by
  cases value with
  | integer n =>
      obtain rfl := Option.some.inj h
      rfl
  | float y =>
      obtain rfl := Option.some.inj h
      rfl
  | string _ => cases h
  | boolean _ => cases h
  | datetime _ => cases h
  | array _ => cases h
  | table _ => cases h

/-- **What a number is read as**: the version whose tenths are nearest to it. -/
theorem versionOfNumber_eq_ok_iff {x : Float} {v : Version} :
    versionOfNumber x = .ok v ↔
      v.InRange ∧ ∃ q, valueOf? x = some q ∧ RoundsTo (10 * q) v.tenths := by
  unfold versionOfNumber valueOf?
  rw [Config.versionOfText_eq_ok_iff]
  cases double.decode x.toBits.toNat with
  | nan =>
      have hnone : Version.parse (Decimal.tenths .nan) = .error ⟨"NaN"⟩ := by rfl
      simp [hnone, Binary.value?]
  | infinite negative =>
      have hnone : Version.parse (Decimal.tenths (.infinite negative)) ≠ .ok v := by
        cases negative <;> exact fun h => by cases h
      simp [hnone, Binary.value?]
  | finite negative mantissa exponent =>
      obtain ⟨n, hrounds, htext⟩ := exists_tenths negative mantissa exponent
      rw [htext]
      cases negative with
      | true =>
          constructor
          · intro h
            exact absurd (Version.parse_eq_ok_iff.1 h)
              (Version.not_spells_of_minus (String.toList_ofList ..) _ _)
          · -- What is not positive is rounded to no version.
            rintro ⟨hrange, q, hq, hrounds'⟩
            obtain rfl := Option.some.inj hq
            have hnonneg : (0 : ℚ) ≤ mantissa * 2 ^ exponent :=
              mul_nonneg (Nat.cast_nonneg _) (zpow_nonneg (by norm_num) _)
            have hbound : (10 : ℚ) ≤ v.tenths := by exact_mod_cast hrange.bounds.1
            have hnear := (abs_le.1 hrounds'.near).1
            simp only [if_true] at hnear
            linarith
      | false =>
          have hrepr : String.ofList (sign false ++
                (digitsOf (n / 10) ++ '.' :: digitsOf (n % 10)))
              = Nat.repr (n / 10) ++ "." ++ Nat.repr (n % 10) := by
            rw [← String.toList_inj]
            simp [sign, digitsOf]
          rw [hrepr, Version.parse_tenths_iff]
          have hvalue : (Binary.finite false mantissa exponent).value?
              = some ((mantissa : ℚ) * 2 ^ exponent) := by simp [Binary.value?]
          rw [hvalue]
          constructor
          · rintro ⟨hrange, rfl⟩
            exact ⟨hrange, _, rfl, hrounds⟩
          · rintro ⟨hrange, q, hq, hrounds'⟩
            obtain rfl := Option.some.inj hq
            exact ⟨hrange, hrounds'.unique hrounds⟩

end Toml.Value

/-! ## Configurations -/

namespace Config

theorem glslVersion_foldlM {entries : List (String × Value)} {d d' : Draft}
    (hkeys : "glsl_version" ∉ entries.map Prod.fst)
    (h : entries.foldlM (fun (d : Draft) (key, v) => d.read key v) d = .ok d') :
    d'.glslVersion = d.glslVersion := by
  induction entries generalizing d with
  | nil =>
      obtain rfl := Except.ok.inj h
      rfl
  | cons entry rest ih =>
      obtain ⟨key, v⟩ := entry
      rw [List.map_cons, List.mem_cons, not_or] at hkeys
      rw [List.foldlM_cons] at h
      obtain ⟨next, hfirst, hrest⟩ := bind_eq_ok.1 h
      rw [ih hkeys.2 hrest, Draft.glslVersion_read_of_ne (Ne.symm hkeys.1) hfirst]

/-- The version of a configuration is what its entry for it is read as. -/
theorem glslVersion_ofToml {before after : List (String × Value)} {value : Value} {c : Config}
    (hafter : "glsl_version" ∉ after.map Prod.fst)
    (h : ofToml (before ++ ("glsl_version", value) :: after) = .ok c) :
    ∃ v, value.asVersion = .ok v ∧ c.glslVersion = some v := by
  obtain ⟨d, hread, -, heq⟩ := exists_draft h
  rw [List.foldlM_append] at hread
  obtain ⟨d₁, -, hread⟩ := bind_eq_ok.1 hread
  rw [List.foldlM_cons] at hread
  obtain ⟨d₂, hversion, hrest⟩ := bind_eq_ok.1 hread
  obtain ⟨v, hv, hd₂⟩ := Draft.glslVersion_read hversion
  exact ⟨v, hv, by rw [heq, glslVersion_foldlM hafter hrest, hd₂]⟩

/-- **Versions given as numbers.** A number is read as the version whose tenths are nearest to
it, half a tenth going to the even ones, and is refused if that is out of range. The number that
the text of a version is rounded to is read as the same version as the text. A configuration that
gives a number is accepted with the version that the number is read as. -/
theorem asVersion_number_iff {value : Value} {x : Float} (hx : value.number? = some x) :
    (∀ v, value.asVersion = .ok v ↔
      v.InRange ∧ ∃ q, valueOf? x = some q ∧ RoundsTo (10 * q) v.tenths) ∧
    (∀ v q, v.InRange → valueOf? x = some q → double.Nearest (v.tenths / 10) q →
      value.asVersion = .ok v ∧ Value.asVersion (.string v.text) = .ok v) ∧
    (∀ before after c, "glsl_version" ∉ after.map Prod.fst →
      ofToml (before ++ ("glsl_version", value) :: after) = .ok c →
        ∃ v, c.glslVersion = some v ∧ value.asVersion = .ok v) := by
  have hread : ∀ v, value.asVersion = .ok v ↔
      v.InRange ∧ ∃ q, valueOf? x = some q ∧ RoundsTo (10 * q) v.tenths := by
    intro v
    rw [Toml.Value.asVersion_of_number hx, Toml.Value.versionOfNumber_eq_ok_iff]
  refine ⟨hread, ?_, ?_⟩
  · intro v q hrange hq hnearest
    obtain ⟨hle, hlt⟩ := hrange.bounds
    have htext : Toml.Value.versionOfText v.text = .ok v :=
      versionOfText_eq_ok_iff.2 hrange.parse_text
    exact ⟨(hread v).2 ⟨hrange, q, hq, hnearest.roundsTo hle hlt⟩, htext⟩
  · intro before after c hafter h
    obtain ⟨v, hv, hc⟩ := glslVersion_ofToml hafter h
    exact ⟨v, hc, hv⟩

/-- A tenth after the point is kept. -/
theorem asVersion_number_iff_tenth :
    Value.number? (.float 4.1) = some 4.1 ∧ Value.asVersion (.float 4.1) = .ok ⟨4, 1⟩ ∧
      ∃ q, valueOf? 4.1 = some q ∧ RoundsTo (10 * q) 41 := by
  have hx : Value.number? (.float 4.1) = some 4.1 := rfl
  have hread : Value.asVersion (.float 4.1) = .ok ⟨4, 1⟩ :=
    toOption_eq_some_iff.1 (by decide +kernel)
  have htenths : Version.tenths ⟨4, 1⟩ = 41 := by decide
  obtain ⟨-, q, hq, hrounds⟩ := ((asVersion_number_iff hx).1 ⟨4, 1⟩).1 hread
  rw [htenths] at hrounds
  exact ⟨hx, hread, q, hq, hrounds⟩

/-- A quarter after the point is rounded away: the configuration is accepted with a version that
the number is not nearest to. The text with both digits is refused. -/
theorem quarter_rounded_away :
    parse "version = 1\nglsl_version = 4.25\n"
        = .ok { version := 1, glslVersion := some ⟨4, 2⟩ } ∧
      Value.asVersion (.float 4.25) = .ok ⟨4, 2⟩ ∧
      valueOf? 4.25 = some (17 / 4) ∧ ¬ double.Nearest (Version.tenths ⟨4, 2⟩ / 10) (17 / 4) ∧
      Value.asVersion (.string "4.25") = .error (.badVersion ⟨"4.25"⟩) := by
  have hdecode : double.decode (4.25 : Float).toBits.toNat
      = .finite false 4785074604081152 (-50) := by decide +kernel
  refine ⟨toOption_eq_some_iff.1 (by decide +kernel),
    toOption_eq_some_iff.1 (by decide +kernel), ?_, ?_, rfl⟩
  · unfold valueOf?
    rw [hdecode]
    norm_num [Binary.value?]
  · intro h
    -- 134 parts of thirty-two are nearer to the version.
    have hnear := h.le_of_represents _ (represents_div_thirtyTwo (k := 134) (by omega) (by omega))
    have htenths : Version.tenths ⟨4, 2⟩ = 42 := by decide
    rw [htenths] at hnear
    norm_num [abs_of_pos, abs_of_neg] at hnear

end Config

end Shaderwright

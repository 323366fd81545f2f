import Shaderwright.Decimal.Layout
import Shaderwright.Proofs.Glsl.Integers

/-!
# Floating constants

Digits in front of a point, of an exponent or of both are a floating constant (`isFloat_point`,
`isFloat_exponent`). No text is a floating and an integer constant at once
(`not_isInteger_of_isFloat`): what is written with neither a point nor an exponent has digits only,
a mark for unsigned at their end, or begins as a hexadecimal constant.

Every layout of a decimal number has the digits and the point or exponent of such a constant
(`isFloat_unsigned`).
-/

namespace Shaderwright.Glsl

/-! ## Digits, points and exponents -/

section
variable {ds es rest : List Char}

theorem takeWhile_isDigit_append (hds : ∀ c ∈ ds, c.isDigit = true)
    (hrest : ∀ c ∈ rest.head?, c.isDigit = false) : (ds ++ rest).takeWhile Char.isDigit = ds := by
  rw [List.takeWhile_append_of_pos hds]
  cases rest with
  | nil => exact List.append_nil ds
  | cons c cs =>
      rw [List.takeWhile_cons_of_neg (by simp [hrest c rfl]), List.append_nil]

theorem dropWhile_isDigit_append (hds : ∀ c ∈ ds, c.isDigit = true)
    (hrest : ∀ c ∈ rest.head?, c.isDigit = false) :
    (ds ++ rest).dropWhile Char.isDigit = rest := by
  rw [List.dropWhile_append_of_pos hds]
  cases rest with
  | nil => rfl
  | cons c cs => exact List.dropWhile_cons_of_neg (by simp [hrest c rfl])

theorem exists_of_isExponentPart (h : isExponentPart rest = true) :
    ∃ e cs, rest = e :: cs ∧ (e = 'e' ∨ e = 'E') := by
  cases rest with
  | nil => cases h
  | cons e cs =>
      refine ⟨e, cs, rfl, ?_⟩
      simp only [isExponentPart, Bool.and_eq_true, Bool.or_eq_true, beq_iff_eq] at h
      exact h.1.1

theorem not_isDigit_of_isExponentPart (h : isExponentPart rest = true) :
    ∀ c ∈ rest.head?, c.isDigit = false := by
  obtain ⟨e, cs, rfl, he⟩ := exists_of_isExponentPart h
  intro c hc
  obtain rfl : e = c := by simpa using hc
  rcases he with rfl | rfl
  · rfl
  · rfl

theorem isExponentPart_cons {e : Char} {cs : List Char} (he : e = 'e' ∨ e = 'E')
    (hcs : isDigits (withoutSign cs) = true) : isExponentPart (e :: cs) = true := by
  obtain ⟨hne, hdigits⟩ := isDigits_iff.1 hcs
  have htake : (withoutSign cs ++ []).takeWhile Char.isDigit = withoutSign cs :=
    takeWhile_isDigit_append hdigits (by simp)
  have hdrop : (withoutSign cs ++ []).dropWhile Char.isDigit = [] :=
    dropWhile_isDigit_append hdigits (by simp)
  rw [List.append_nil] at htake hdrop
  unfold isExponentPart
  rcases he with rfl | rfl
  · simp [htake, hdrop, hne, isFloatSuffix]
  · simp [htake, hdrop, hne, isFloatSuffix]

/-- Digits, a point and more digits, with or without an exponent. -/
theorem isFloat_point (hds : isDigits ds = true) (hes : ∀ c ∈ es, c.isDigit = true)
    (hrest : rest = [] ∨ isExponentPart rest = true) :
    isFloat (ds ++ '.' :: (es ++ rest)) = true := by
  obtain ⟨hne, hdigits⟩ := isDigits_iff.1 hds
  have hpoint : ∀ c ∈ ('.' :: (es ++ rest)).head?, c.isDigit = false := by
    intro c hc
    obtain rfl : '.' = c := by simpa using hc
    rfl
  have hstop : ∀ c ∈ rest.head?, c.isDigit = false := by
    rcases hrest with rfl | hexponent
    · simp
    · exact not_isDigit_of_isExponentPart hexponent
  have hend : (isFloatSuffix rest || isExponentPart rest) = true := by
    rcases hrest with rfl | hexponent
    · rfl
    · rw [hexponent, Bool.or_true]
  rw [isFloat, dropWhile_isDigit_append hdigits hpoint, takeWhile_isDigit_append hdigits hpoint]
  show (!(ds.isEmpty && _) && (isFloatSuffix ((es ++ rest).dropWhile Char.isDigit) ||
    isExponentPart ((es ++ rest).dropWhile Char.isDigit))) = true
  rw [dropWhile_isDigit_append hes hstop, hend]
  simp [hne]

/-- Digits and an exponent. -/
theorem isFloat_exponent (hds : isDigits ds = true) (hrest : isExponentPart rest = true) :
    isFloat (ds ++ rest) = true := by
  obtain ⟨hne, hdigits⟩ := isDigits_iff.1 hds
  have hstop := not_isDigit_of_isExponentPart hrest
  rw [isFloat, dropWhile_isDigit_append hdigits hstop, takeWhile_isDigit_append hdigits hstop]
  obtain ⟨e, cs, rfl, he⟩ := exists_of_isExponentPart hrest
  rcases he with rfl | rfl
  · simp [hne, hrest]
  · simp [hne, hrest]

end

/-! ## Integers are no floats -/

theorem withoutUnsignedMark_prefix (cs : List Char) : withoutUnsignedMark cs <+: cs := by
  unfold withoutUnsignedMark
  split
  · exact List.dropLast_prefix cs
  · exact List.prefix_refl cs

/-- An integer constant begins as a hexadecimal one, or has digits only in front of its mark. -/
theorem isInteger_cases {cs : List Char} (h : isInteger cs = true) :
    (∃ x ds, cs = '0' :: x :: ds ∧ (x = 'x' ∨ x = 'X')) ∨
      ∀ c ∈ cs, c.isDigit = true ∨ c = 'u' ∨ c = 'U' := by
  obtain ⟨back, hback⟩ := withoutUnsignedMark_prefix cs
  have hdigits : (∀ c ∈ withoutUnsignedMark cs, c.isDigit = true) →
      ∀ c ∈ cs, c.isDigit = true ∨ c = 'u' ∨ c = 'U' :=
    fun hall c hc => (mem_withoutUnsignedMark hc).imp_left (hall c)
  rw [isInteger] at h
  split at h
  · cases h
  · next ds heq => exact .inl ⟨'x', ds ++ back, by rw [← hback, heq]; rfl, .inl rfl⟩
  · next ds heq => exact .inl ⟨'X', ds ++ back, by rw [← hback, heq]; rfl, .inr rfl⟩
  · next ds heq =>
      refine .inr (hdigits ?_)
      rw [heq]
      exact List.forall_mem_cons.2
        ⟨by decide, fun c hc => isDigit_of_isOctDigit (List.all_eq_true.1 h c hc)⟩
  · next d ds heq =>
      refine .inr (hdigits ?_)
      rw [heq]
      obtain ⟨hd, hds⟩ := Bool.and_eq_true_iff.1 h
      exact List.forall_mem_cons.2 ⟨hd, List.all_eq_true.1 hds⟩

/-- What is behind the first digits of an integer is no point and no exponent. -/
theorem dropWhile_of_isInteger {cs : List Char} (h : isInteger cs = true) :
    ∀ c ∈ (cs.dropWhile Char.isDigit).head?, c ∈ ['x', 'X', 'u', 'U'] := by
  intro c hc
  rcases isInteger_cases h with ⟨x, ds, rfl, hx⟩ | hall
  · have hdrop : ('0' :: x :: ds).dropWhile Char.isDigit = x :: ds := by
      rcases hx with rfl | rfl
      · rfl
      · rfl
    rw [hdrop] at hc
    obtain rfl : x = c := by simpa using hc
    rcases hx with rfl | rfl
    · simp
    · simp
  · have hmem : c ∈ cs :=
      (List.dropWhile_suffix Char.isDigit).subset (List.mem_of_mem_head? hc)
    have hstop : c.isDigit = false := by
      simpa [Option.mem_def.1 hc] using List.head?_dropWhile_not Char.isDigit cs
    rcases hall c hmem with hdigit | hmark
    · rw [hdigit] at hstop
      cases hstop
    · rcases hmark with rfl | rfl
      · simp
      · simp

theorem not_isInteger_of_isFloat {cs : List Char} (h : isFloat cs = true) :
    isInteger cs = false := by
  cases hi : isInteger cs with
  | false => rfl
  | true =>
      have hnext := dropWhile_of_isInteger hi
      rw [isFloat] at h
      split at h
      · next ds heq => exact absurd (hnext '.' (by rw [heq]; rfl)) (by decide)
      · obtain ⟨e, ds, heq, he⟩ := exists_of_isExponentPart (Bool.and_eq_true_iff.1 h).2
        have hmem := hnext e (by rw [heq]; rfl)
        rcases he with rfl | rfl
        · exact absurd hmem (by decide)
        · exact absurd hmem (by decide)

end Shaderwright.Glsl

namespace Shaderwright.Decimal

open Glsl

/-! ## Layouts of decimal numbers -/

theorem isDigits_digitsOf (n : Nat) : isDigits (digitsOf n) = true := by
  have hrepr := isDigits_repr n
  rwa [Nat.toList_repr] at hrepr

theorem isDigit_of_mem_zeros {n : Nat} : ∀ c ∈ zeros n, c.isDigit = true := by
  intro c hc
  rw [List.eq_of_mem_replicate hc]
  rfl

theorem withoutSign_sign_append {ds : List Char} (h : isDigits ds = true) (negative : Bool) :
    withoutSign (sign negative ++ ds) = ds := by
  cases negative with
  | true => rfl
  | false =>
      obtain ⟨hne, hdigits⟩ := isDigits_iff.1 h
      obtain ⟨d, es, rfl⟩ := List.exists_cons_of_ne_nil hne
      have hd : d.isDigit = true := hdigits d List.mem_cons_self
      refine if_neg fun hsign => ?_
      simp only [Bool.or_eq_true, beq_iff_eq] at hsign
      rcases hsign with rfl | rfl
      · exact absurd hd (by decide)
      · exact absurd hd (by decide)

theorem isExponentPart_exponentText (e : Int) : isExponentPart (exponentText e) = true := by
  have hdigits := isDigits_digitsOf e.natAbs
  refine isExponentPart_cons (.inl rfl) ?_
  rwa [withoutSign_sign_append hdigits]

theorem isFloat_pointed (places : Nat) {ds : List Char} (h : isDigits ds = true) :
    isFloat (pointed places ds) = true := by
  obtain ⟨hne, hdigits⟩ := isDigits_iff.1 h
  unfold pointed
  split
  · next hlt =>
      have hfront : isDigits (ds.take (ds.length - places)) = true := by
        refine isDigits_iff.2 ⟨?_, fun c hc => hdigits c (List.mem_of_mem_take hc)⟩
        intro hnil
        have hlength := congrArg List.length hnil
        rw [List.length_take, List.length_nil] at hlength
        omega
      have hback : ∀ c ∈ ds.drop (ds.length - places), c.isDigit = true :=
        fun c hc => hdigits c (List.mem_of_mem_drop hc)
      rw [← List.append_nil (ds.drop (ds.length - places))]
      exact isFloat_point hfront hback (.inl rfl)
  · have hback : ∀ c ∈ zeros (places - ds.length) ++ ds, c.isDigit = true :=
      List.forall_mem_append.2 ⟨isDigit_of_mem_zeros, hdigits⟩
    have hzero : isDigits ['0'] = true := rfl
    rw [← List.append_nil (zeros (places - ds.length) ++ ds)]
    exact isFloat_point hzero hback (.inl rfl)

theorem isFloat_positional (x : Scaled) : isFloat (positional x) = true := by
  unfold positional
  split
  · obtain ⟨hne, hdigits⟩ := isDigits_iff.1 (isDigits_digitsOf x.digits)
    have hfront : isDigits (digitsOf x.digits ++ zeros x.scale.toNat) = true :=
      isDigits_iff.2
        ⟨by simp [hne], List.forall_mem_append.2 ⟨hdigits, isDigit_of_mem_zeros⟩⟩
    have hback : ∀ c ∈ ['0'], c.isDigit = true := List.all_eq_true.1 rfl
    exact isFloat_point hfront hback (.inl rfl)
  · exact isFloat_pointed _ (isDigits_digitsOf x.digits)

theorem isFloat_scientific (x : Scaled) : isFloat (scientific x) = true := by
  have hexponent := isExponentPart_exponentText x.exponent
  obtain ⟨hne, hdigits⟩ := isDigits_iff.1 (isDigits_digitsOf x.digits)
  unfold scientific
  split
  · next hnil => exact absurd hnil hne
  · next d hd =>
      rw [hd] at hdigits
      have hfront : isDigits [d] = true := isDigits_iff.2 ⟨by simp, hdigits⟩
      exact isFloat_exponent hfront hexponent
  · next d e rest hd =>
      rw [hd] at hdigits
      obtain ⟨hfirst, hback⟩ := List.forall_mem_cons.1 hdigits
      have hfront : isDigits [d] = true := isDigits_iff.2 ⟨by simp, by simpa using hfirst⟩
      exact isFloat_point hfront hback (.inr hexponent)

theorem isFloat_unsigned (x : Scaled) : isFloat (unsigned x) = true := by
  unfold unsigned
  split
  · exact isFloat_positional x
  · exact isFloat_scientific x

/-- Behind its sign a finite number is a floating constant. -/
theorem exists_isFloat_of_finite (f : Format) (negative : Bool) (mantissa : Nat)
    (exponent : Int) : ∃ cs, isFloat cs = true ∧
      laidOut f unsigned (.finite negative mantissa exponent) = sign negative ++ cs := by
  by_cases hzero : mantissa = 0
  · exact ⟨['0', '.', '0'], by decide, by simp [laidOut, hzero]⟩
  · exact ⟨_, isFloat_unsigned (shortest f mantissa exponent), by simp [laidOut, hzero]⟩

end Shaderwright.Decimal

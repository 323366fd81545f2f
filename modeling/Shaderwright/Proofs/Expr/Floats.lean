import Shaderwright.Expr.Compose
import Shaderwright.Proofs.Decimal.Patterns
import Shaderwright.Proofs.Expr.RoundTrip
import Shaderwright.Proofs.Glsl.Floats

/-!
# Literals of floating-point numbers

A finite number is laid out as a floating constant, never as an integer constant, so its literal
is one such constant with at most one minus sign before it. Signs, members and indices put the
literal in parentheses exactly if it has a sign of its own (`isFloatLiteral_ofFloat_iff`).

The numbers that are not finite have no constant to be written as: their literals are the words
`inf` and `NaN`, which are names in the language, and NaN is written without its sign
(`infinity_is_word`).
-/

namespace Shaderwright.Expr

open Decimal Glsl

/-! ## Tokens -/

def signTokens (signed : Bool) : List Token := if signed then [.punct "-"] else []

/-- A floating constant that is no integer constant. -/
def IsFloatToken (t : Token) : Prop :=
  ∃ c, t = .number c ∧ isFloat c.toList = true ∧ isInteger c.toList = false

/-- A text that begins with neither a sign nor an operator. -/
def BeginsPlain (cs : List Char) : Prop :=
  ∃ c rest, cs = c :: rest ∧ isOperatorChar c = false ∧ isSign c = false

theorem beginsPlain_of_isFloat {cs : List Char} (h : isFloat cs = true) : BeginsPlain cs := by
  have hconstant : isConstant (String.ofList cs) = true := by simp [isConstant, isNumber, h]
  have hhead := head_of_isConstant hconstant
  rwa [String.toList_ofList] at hhead

theorem lex_isFloat {cs : List Char} (h : isFloat cs = true) :
    lex cs = some [.number (String.ofList cs)] := by
  have hnumber : isNumber cs = true := by rw [isNumber, h, Bool.or_true]
  have hlex : lex (cs ++ []) = (lex []).map (.number (String.ofList cs) :: ·) :=
    lex_number hnumber (by simp)
  rwa [List.append_nil, lex_nil] at hlex

theorem lex_isWord {cs : List Char} (h : isWord cs = true) :
    lex cs = some [.word (String.ofList cs)] := by
  have hlex : lex (cs ++ []) = (lex []).map (.word (String.ofList cs) :: ·) :=
    lex_word h (by simp)
  rwa [List.append_nil, lex_nil] at hlex

theorem isFloatToken_number {cs : List Char} (h : isFloat cs = true) :
    IsFloatToken (.number (String.ofList cs)) := by
  refine ⟨String.ofList cs, rfl, ?_⟩
  rw [String.toList_ofList]
  exact ⟨h, not_isInteger_of_isFloat h⟩

theorem not_isFloatToken_word (w : String) : ¬ IsFloatToken (.word w) := by
  rintro ⟨c, hc, -⟩
  cases hc

/-- A minus sign in front is cut off as a token of its own. -/
theorem lex_signed {cs : List Char} (h : BeginsPlain cs) {ts : List Token}
    (hlex : lex cs = some ts) (signed : Bool) :
    lex (sign signed ++ cs) = some (signTokens signed ++ ts) := by
  cases signed with
  | false => exact hlex
  | true =>
      obtain ⟨c, rest, rfl, hop, -⟩ := h
      have hhead : ∀ d ∈ (c :: rest).head?, isOperatorChar d = false := by
        intro d hd
        obtain rfl : c = d := by simpa using hd
        exact hop
      have hminus : lex ("-".toList ++ c :: rest)
          = (lex (c :: rest)).map (.punct "-" :: ·) :=
        lex_operator (by decide) hhead fun hpoint => absurd hpoint (by decide)
      rw [hlex] at hminus
      exact hminus

theorem isSigned_sign_append {cs : List Char} (h : BeginsPlain cs) (signed : Bool) :
    isSigned (String.ofList (sign signed ++ cs)) = signed := by
  unfold isSigned
  rw [String.toList_ofList]
  cases signed with
  | true => rfl
  | false =>
      obtain ⟨c, rest, rfl, -, hsign⟩ := h
      exact hsign

/-! ## Places -/

section
variable {t : String}

theorem text_unary_literal (op : UnaryOp) :
    (unary op (literal t)).text = op.symbol ++ grouped (isSigned t) t := by
  cases h : isSigned t <;>
    simp [text, leadsWithSign, strength, h, unaryStrength, atomStrength]

theorem strength_literal_lt : decide ((literal t).strength < postfixStrength) = isSigned t := by
  cases h : isSigned t <;> simp [strength, h, unaryStrength, postfixStrength, atomStrength]

theorem text_member_literal (name : String) :
    (member (literal t) name).text = grouped (isSigned t) t ++ "." ++ name := by
  simp only [text, strength_literal_lt]

theorem text_index_literal (position : Expr) :
    (index (literal t) position).text = grouped (isSigned t) t ++ "[" ++ position.text ++ "]" := by
  simp only [text, strength_literal_lt]

end

/-! ## Literals -/

/-- A literal of one floating constant with at most one minus sign before it. As the operand of a
sign and as the base of a member or an index it is in parentheses exactly if it is `negative`. -/
structure IsFloatLiteral (e : Expr) (negative : Bool) : Prop where
  tokens : ∃ signed t, lex e.text.toList = some (signTokens signed ++ [t]) ∧ IsFloatToken t
  unary_text : ∀ op, (unary op e).text = op.symbol ++ grouped negative e.text
  member_text : ∀ name, (member e name).text = grouped negative e.text ++ "." ++ name
  index_text : ∀ position,
    (index e position).text = grouped negative e.text ++ "[" ++ position.text ++ "]"

theorem signTokens_append_inj {signed signed' : Bool} {t t' : Token}
    (h : signTokens signed ++ [t] = signTokens signed' ++ [t']) : t = t' := by
  have hlast := congrArg List.getLast? h
  simpa using hlast

section
variable (f : Format) (bits : Nat)

/-- The minus sign is written of every negative number, but not of NaN. -/
def showsSign : Bool := f.isNegative bits && !f.isNaN bits

/-- What is written behind the sign: one token, which is a floating constant if the number is
finite, and a word if it is not. -/
theorem exists_token :
    ∃ cs t, general f bits = String.ofList (sign (showsSign f bits) ++ cs) ∧ BeginsPlain cs ∧
      lex cs = some [t] ∧
      (f.isFinite bits = true ∧ IsFloatToken t ∨
        f.isFinite bits = false ∧ t = .word (if f.isNaN bits then "NaN" else "inf")) := by
  unfold general showsSign
  rcases f.decode_cases bits with ⟨hfinite, hnan, mantissa, exponent, hdecode⟩ |
    ⟨hfinite, hnan, hdecode⟩ | ⟨hfinite, hnan, hdecode⟩
  · obtain ⟨cs, hcs, htext⟩ := exists_isFloat_of_finite f (f.isNegative bits) mantissa exponent
    rw [hdecode, htext, hnan, Bool.not_false, Bool.and_true]
    exact ⟨cs, _, rfl, beginsPlain_of_isFloat hcs, lex_isFloat hcs,
      .inl ⟨hfinite, isFloatToken_number hcs⟩⟩
  · have hplain : BeginsPlain ['i', 'n', 'f'] := ⟨'i', ['n', 'f'], rfl, by decide⟩
    rw [hdecode, hnan, Bool.not_false, Bool.and_true]
    exact ⟨_, _, rfl, hplain, lex_isWord rfl, .inr ⟨hfinite, rfl⟩⟩
  · have hplain : BeginsPlain ['N', 'a', 'N'] := ⟨'N', ['a', 'N'], rfl, by decide⟩
    rw [hdecode, hnan, Bool.not_true, Bool.and_false]
    exact ⟨_, _, rfl, hplain, lex_isWord rfl, .inr ⟨hfinite, rfl⟩⟩

theorem isSigned_general : isSigned (general f bits) = showsSign f bits := by
  obtain ⟨cs, t, htext, hplain, -, -⟩ := exists_token f bits
  rw [htext, isSigned_sign_append hplain]

theorem lex_general :
    ∃ t, lex (general f bits).toList = some (signTokens (showsSign f bits) ++ [t]) ∧
      (f.isFinite bits = true ∧ IsFloatToken t ∨
        f.isFinite bits = false ∧ t = .word (if f.isNaN bits then "NaN" else "inf")) := by
  obtain ⟨cs, t, htext, hplain, hlex, ht⟩ := exists_token f bits
  refine ⟨t, ?_, ht⟩
  rw [htext, String.toList_ofList]
  exact lex_signed hplain hlex _

theorem isFloatLiteral_general_iff :
    IsFloatLiteral (literal (general f bits)) (f.isNegative bits) ↔ f.isFinite bits = true := by
  obtain ⟨t, hlex, ht⟩ := lex_general f bits
  constructor
  · intro h
    obtain ⟨signed, t', hlex', hfloat⟩ := h.tokens
    rw [text, hlex] at hlex'
    obtain rfl := signTokens_append_inj (Option.some.inj hlex')
    rcases ht with ⟨hfinite, -⟩ | ⟨-, rfl⟩
    · exact hfinite
    · exact absurd hfloat (not_isFloatToken_word _)
  · intro hfinite
    have hsigned : isSigned (general f bits) = f.isNegative bits := by
      rw [isSigned_general, showsSign, Format.isNaN, hfinite]
      simp
    have hfloat : IsFloatToken t := by
      rcases ht with ⟨-, hfloat⟩ | ⟨hinfinite, -⟩
      · exact hfloat
      · rw [hfinite] at hinfinite
        cases hinfinite
    constructor
    · exact ⟨_, t, hlex, hfloat⟩
    · intro op
      rw [text_unary_literal, hsigned, text]
    · intro name
      rw [text_member_literal, hsigned, text]
    · intro position
      rw [text_index_literal, hsigned, text]

end

/-- **Literals of floating-point numbers.** The literal of a float of either format, and of every
pattern of bits, is one floating constant with its sign, in parentheses where the sign needs them,
if and only if the number is finite. What is not finite is written as a word, and NaN without its
sign. -/
theorem isFloatLiteral_ofFloat_iff (x : Float) (y : Float32) (f : Format) (bits : Nat) :
    (IsFloatLiteral (ofFloat x) (double.isNegative x.toBits.toNat) ↔ x.isFinite = true) ∧
    (IsFloatLiteral (ofFloat32 y) (single.isNegative y.toBits.toNat) ↔ y.isFinite = true) ∧
    (IsFloatLiteral (literal (general f bits)) (f.isNegative bits) ↔ f.isFinite bits = true) ∧
    (f.isFinite bits = true ∨
      lex (literal (general f bits)).text.toList = some (signTokens (showsSign f bits) ++
        [.word (if f.isNaN bits then "NaN" else "inf")])) := by
  refine ⟨?_, ?_, isFloatLiteral_general_iff f bits, ?_⟩
  · rw [← Format.isFinite_double]
    exact isFloatLiteral_general_iff double x.toBits.toNat
  · rw [← Format.isFinite_single]
    exact isFloatLiteral_general_iff single y.toBits.toNat
  · obtain ⟨t, hlex, ⟨hfinite, -⟩ | ⟨-, rfl⟩⟩ := lex_general f bits
    · exact .inl hfinite
    · exact .inr hlex

/-- An infinity is written as a name, which is no constant with or without a sign before it. A NaN
with a sign is written as a name too, without its sign, and stands bare as the base of a member. -/
theorem infinity_is_word :
    (ofFloat32 (.ofBits 0x7F800000)).text = "inf" ∧ lex "inf".toList = some [.word "inf"] ∧
      (¬ ∃ signed t, lex "inf".toList = some (signTokens signed ++ [t]) ∧ IsFloatToken t) ∧
      single.isNegative 0xFFC00000 = true ∧
      (member (literal (general single 0xFFC00000)) "x").text = "NaN.x" := by
  have hlex : lex "inf".toList = some (signTokens false ++ [.word "inf"]) := lex_isWord rfl
  refine ⟨by decide +kernel, hlex, ?_, by decide +kernel, by decide +kernel⟩
  rintro ⟨signed, t, hsigned, hfloat⟩
  rw [hlex] at hsigned
  obtain rfl := signTokens_append_inj (Option.some.inj hsigned)
  exact not_isFloatToken_word "inf" hfloat

end Shaderwright.Expr

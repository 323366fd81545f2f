import Shaderwright.Proofs.Glsl.Lexer

/-!
# Integers in front of a point

A sequence of digits with a point after it is a number constant again, a longer one. So an integer
and a point are two tokens of a text only if a blank stands between them
(`exists_blank_of_lex_integer_point`).

The first part reads the lexer backwards: where the first token of a text was cut off
(`exists_cut_of_lex_cons`), and from where on the last tokens were (`exists_suffix_of_lex_append`).
The second part is about the numerals of natural numbers, which are integer constants
(`isNumber_repr`).
-/

namespace Shaderwright.Glsl

/-! ## Where tokens were cut off -/

def Token.text : Token → String
  | .word t | .number t | .punct t => t

theorem text_of_tokenOf? {w : List Char} {t : Token} (h : tokenOf? w = some t) :
    w = t.text.toList := by
  rw [tokenOf?] at h
  split at h
  · obtain rfl := Option.some.inj h
    exact String.toList_ofList.symm
  · split at h
    · obtain rfl := Option.some.inj h
      exact String.toList_ofList.symm
    · split at h
      · obtain rfl := Option.some.inj h
        exact String.toList_ofList.symm
      · cases h

/-- The first token of a text stands after blanks only, and no longer lexeme begins where it
does. -/
theorem exists_cut_of_lex_cons {cs : List Char} {t : Token} {ts : List Token}
    (h : lex cs = some (t :: ts)) :
    ∃ blanks rest, cs = blanks ++ (t.text.toList ++ rest) ∧ (∀ c ∈ blanks, isBlank c = true) ∧
      lex rest = some ts ∧ ∀ w left, w ++ left = t.text.toList ++ rest → isLexeme w = true →
        w.length ≤ t.text.toList.length := by
  induction cs with
  | nil => simp at h
  | cons c cs ih =>
      cases hc : isBlank c with
      | true =>
          rw [lex_blank hc] at h
          obtain ⟨blanks, rest, rfl, hblanks, hrest⟩ := ih h
          exact ⟨c :: blanks, rest, rfl, List.forall_mem_cons.2 ⟨hc, hblanks⟩, hrest⟩
      | false =>
          rw [lex, if_neg (by simp [hc])] at h
          split at h
          · cases h
          · next w rest hmunch =>
              split at h
              · cases h
              · next u hu =>
                  obtain ⟨vs, hlex, hcons⟩ := Option.map_eq_some_iff.1 h
                  obtain ⟨rfl, rfl⟩ := List.cons.inj hcons
                  obtain ⟨hcut, -, hlongest⟩ := munch_sound hmunch
                  rw [← text_of_tokenOf? hu]
                  exact ⟨[], rest, hcut.symm, by simp, hlex,
                    fun v left hv => hlongest v left (hv.trans hcut)⟩

/-- The last tokens of a text are those of one of its ends. -/
theorem exists_suffix_of_lex_append {ts us : List Token} {cs : List Char}
    (h : lex cs = some (ts ++ us)) : ∃ back, back <:+ cs ∧ lex back = some us := by
  induction ts generalizing cs with
  | nil => exact ⟨cs, List.suffix_refl cs, h⟩
  | cons t ts ih =>
      obtain ⟨blanks, rest, rfl, -, hrest, -⟩ := exists_cut_of_lex_cons h
      obtain ⟨back, hback, hlex⟩ := ih hrest
      have hsuffix : rest <:+ blanks ++ (t.text.toList ++ rest) :=
        (List.suffix_append _ rest).trans (List.suffix_append blanks _)
      exact ⟨back, hback.trans hsuffix, hlex⟩

theorem not_isBlank_of_isWordChar {c : Char} (h : isWordChar c = true) : isBlank c = false := by
  cases hb : isBlank c with
  | false => rfl
  | true =>
      have hstart := not_isWordStart_of_isBlank hb
      have hdigit := not_isDigit_of_isBlank hb
      simp only [isWordStart, Bool.or_eq_false_iff] at hstart
      simp [isWordChar, Char.isAlphanum, hstart, hdigit] at h

/-! ## Digits -/

def isDigits (cs : List Char) : Bool := !cs.isEmpty && cs.all Char.isDigit

theorem isDigits_iff {cs : List Char} :
    isDigits cs = true ↔ cs ≠ [] ∧ ∀ c ∈ cs, c.isDigit = true := by
  simp [isDigits]

theorem isNumber_point {cs : List Char} (h : isDigits cs = true) :
    isNumber (cs ++ ['.']) = true := by
  obtain ⟨hne, hdigits⟩ := isDigits_iff.1 h
  have hpoint : Char.isDigit '.' = false := rfl
  have hdrop : (cs ++ ['.']).dropWhile Char.isDigit = ['.'] := by
    rw [List.dropWhile_append_of_pos hdigits, List.dropWhile_cons_of_neg (by simp [hpoint])]
  have htake : (cs ++ ['.']).takeWhile Char.isDigit = cs := by
    rw [List.takeWhile_append_of_pos hdigits, List.takeWhile_cons_of_neg (by simp [hpoint]),
      List.append_nil]
  have hfloat : isFloat (cs ++ ['.']) = true := by
    simp [isFloat, hdrop, htake, hne, isFloatSuffix]
  rw [isNumber, hfloat, Bool.or_true]

/-- **An integer and a point.** Without a blank between them they are not two tokens, since the
point is cut off with the digits. -/
theorem exists_blank_of_lex_integer_point {n : String} (hn : isDigits n.toList = true)
    {cs : List Char} {us : List Token} (h : lex cs = some (.number n :: .punct "." :: us)) :
    ∃ front c back, cs = front ++ c :: '.' :: back ∧ isBlank c = true := by
  obtain ⟨before, rest, rfl, -, hrest, hlongest⟩ := exists_cut_of_lex_cons h
  obtain ⟨blanks, back, rfl, hblanks, -⟩ := exists_cut_of_lex_cons hrest
  rcases List.eq_nil_or_concat blanks with rfl | ⟨blanks, c, rfl⟩
  · have hlexeme : isLexeme (n.toList ++ ['.']) = true := by
      rw [isLexeme, isNumber_point hn, Bool.or_true, Bool.true_or, Bool.true_or]
    have hlength := hlongest (n.toList ++ ['.']) back (by simp [Token.text]) hlexeme
    rw [List.length_append] at hlength
    exact absurd hlength (Nat.not_succ_le_self _)
  · refine ⟨before ++ (n.toList ++ blanks), c, back, ?_, hblanks c (by simp)⟩
    simp [Token.text]

/-- The numbers among some tokens. -/
def numbersOf : List Token → List String
  | [] => []
  | .number n :: ts => n :: numbersOf ts
  | .word _ :: ts | .punct _ :: ts => numbersOf ts

@[simp] theorem numbersOf_append (ts us : List Token) :
    numbersOf (ts ++ us) = numbersOf ts ++ numbersOf us := by
  induction ts with
  | nil => rfl
  | cons t ts ih => cases t <;> simp [numbersOf, ih]

/-! ## Numerals -/

theorem head_toDigits {n : Nat} (hn : 0 < n) :
    ∃ d ds, Nat.toDigits 10 n = d :: ds ∧ d ≠ '0' := by
  induction n using Nat.strongRecOn with
  | ind n ih =>
      by_cases hlt : n < 10
      · refine ⟨Nat.digitChar n, [], Nat.toDigits_of_lt_base hlt, ?_⟩
        have hdigit : ∀ k < 10, 0 < k → Nat.digitChar k ≠ '0' := by decide
        exact hdigit n hlt hn
      · obtain ⟨d, ds, hdigits, hd⟩ := ih (n / 10) (by omega) (by omega)
        refine ⟨d, ds ++ [Nat.digitChar (n % 10)], ?_, hd⟩
        rw [Nat.toDigits_of_base_le (by decide) (by omega), hdigits, List.cons_append]

theorem isDigits_repr (n : Nat) : isDigits (Nat.repr n).toList = true := by
  rw [Nat.toList_repr, isDigits_iff]
  exact ⟨Nat.toDigits_ne_nil, fun c hc => Nat.isDigit_of_mem_toDigits (by decide) (by decide) hc⟩

theorem withoutUnsignedMark_of_isDigits {cs : List Char} (h : isDigits cs = true) :
    withoutUnsignedMark cs = cs := by
  refine if_neg fun hlast => ?_
  have hdigits := (isDigits_iff.1 h).2
  rcases hlast with hlast | hlast
  · exact absurd (hdigits _ (List.mem_of_getLast? hlast)) (by decide)
  · exact absurd (hdigits _ (List.mem_of_getLast? hlast)) (by decide)

/-- Digits without a zero in front are a decimal constant, and the zero alone an octal one. -/
theorem isNumber_repr (n : Nat) : isNumber (Nat.repr n).toList = true := by
  have hdigits := isDigits_repr n
  have hinteger : isInteger (Nat.repr n).toList = true := by
    rcases Nat.eq_zero_or_pos n with rfl | hn
    · decide
    · obtain ⟨d, ds, hcs, hd⟩ := head_toDigits hn
      rw [isInteger, withoutUnsignedMark_of_isDigits hdigits]
      rw [Nat.toList_repr, hcs] at hdigits ⊢
      have hall := (isDigits_iff.1 hdigits).2
      split
      · next heq => cases heq
      · next heq => exact absurd (List.cons.inj heq).1 hd
      · next heq => exact absurd (List.cons.inj heq).1 hd
      · next heq => exact absurd (List.cons.inj heq).1 hd
      · next heq =>
          obtain ⟨rfl, rfl⟩ := List.cons.inj heq
          simpa using hall
  rw [isNumber, hinteger, Bool.true_or]

end Shaderwright.Glsl

import Shaderwright.Text.Words

/-!
# Tokens of GLSL source text

Source text is cut by maximal munch: after the white space, the longest prefix
that is a lexeme becomes the next token. Lexemes are words, number constants and
punctuators; the two marks that open a comment are cut like lexemes, but a text
with a comment is refused.

Main statements: what `munch` takes is the longest prefix in the class
(`munch_eq_some_iff`), and how words, numbers, brackets and operators are cut off
in front of a text that cannot extend them (`lex_word`, `lex_number`,
`lex_bracket`, `lex_operator`).
-/

namespace Shaderwright.Glsl

inductive Token where
  | word (text : String)
  | number (text : String)
  | punct (text : String)
deriving DecidableEq, Repr

/-! ## Words -/

def isWordStart (c : Char) : Bool := c.isAlpha || c == '_'

def isWordChar (c : Char) : Bool := c.isAlphanum || c == '_'

def isWord : List Char → Bool
  | [] => false
  | c :: cs => isWordStart c && cs.all isWordChar

/-! ## Number constants -/

def isOctDigit (c : Char) : Bool := '0' ≤ c && c ≤ '7'

/-- The text of an integer constant without the mark for unsigned. -/
def withoutUnsignedMark (cs : List Char) : List Char :=
  if cs.getLast? = some 'u' ∨ cs.getLast? = some 'U' then cs.dropLast else cs

/-- A hexadecimal, octal or decimal integer constant. -/
def isInteger (cs : List Char) : Bool :=
  match withoutUnsignedMark cs with
  | [] => false
  | '0' :: 'x' :: ds | '0' :: 'X' :: ds => !ds.isEmpty && ds.all Text.isHexDigit
  | '0' :: ds => ds.all isOctDigit
  | d :: ds => d.isDigit && ds.all Char.isDigit

def isFloatSuffix (cs : List Char) : Bool :=
  [[], ['f'], ['F'], ['l', 'f'], ['L', 'F']].contains cs

def withoutSign : List Char → List Char
  | [] => []
  | c :: cs => if c == '+' || c == '-' then cs else c :: cs

/-- An exponent with the suffix after it. -/
def isExponentPart : List Char → Bool
  | [] => false
  | c :: cs =>
      (c == 'e' || c == 'E') && !((withoutSign cs).takeWhile Char.isDigit).isEmpty
        && isFloatSuffix ((withoutSign cs).dropWhile Char.isDigit)

/-- A floating constant: digits with a point among them, an exponent, or both. -/
def isFloat (cs : List Char) : Bool :=
  match cs.dropWhile Char.isDigit with
  | '.' :: ds =>
      !((cs.takeWhile Char.isDigit).isEmpty && (ds.takeWhile Char.isDigit).isEmpty)
        && (isFloatSuffix (ds.dropWhile Char.isDigit)
          || isExponentPart (ds.dropWhile Char.isDigit))
  | ds => !(cs.takeWhile Char.isDigit).isEmpty && isExponentPart ds

def isNumber (cs : List Char) : Bool := isInteger cs || isFloat cs

/-- The characters that number constants are written with. -/
def isNumberChar (c : Char) : Bool := c.isAlphanum || c == '.' || c == '+' || c == '-'

/-! ## Punctuators -/

def punctuators : List String :=
  [ "(", ")", "[", "]", "\x7b", "\x7d", ".", ",", ":", ";", "?", "~",
    "=", "!", "-", "+", "*", "/", "%", "<", ">", "|", "^", "&",
    "<<", ">>", "++", "--", "<=", ">=", "==", "!=", "&&", "||", "^^",
    "*=", "/=", "+=", "%=", "<<=", ">>=", "&=", "^=", "|=", "-=" ]

def commentMarks : List String := ["//", "/*"]

def isPunct (cs : List Char) : Bool := punctuators.any fun p => p.toList == cs

def isCommentMark (cs : List Char) : Bool := commentMarks.any fun p => p.toList == cs

/-! ## Cutting -/

def isLexeme (cs : List Char) : Bool := isWord cs || isNumber cs || isPunct cs || isCommentMark cs

/-- The token with that text. Comment marks have none. -/
def tokenOf? (cs : List Char) : Option Token :=
  if isWord cs then some (.word (String.ofList cs))
  else if isNumber cs then some (.number (String.ofList cs))
  else if isPunct cs then some (.punct (String.ofList cs))
  else none

/-- The longest prefix that satisfies `p`, and what is left. -/
def munch (p : List Char → Bool) : List Char → Option (List Char × List Char)
  | [] => if p [] then some ([], []) else none
  | c :: cs =>
      match munch (fun w => p (c :: w)) cs with
      | some (w, rest) => some (c :: w, rest)
      | none => if p [] then some ([], c :: cs) else none

/-- The blanks of GLSL: space, tabs, form feed and line ends. -/
def isBlank (c : Char) : Bool := [' ', '\t', '\n', '\r', '\x0b', '\x0c'].contains c

theorem munch_none_nil {p : List Char → Bool} {cs : List Char} (h : munch p cs = none) :
    p [] = false := by
  cases cs with
  | nil => simpa [munch] using h
  | cons c cs =>
      rw [munch] at h
      split at h
      · exact absurd h (by simp)
      · simpa using h

theorem munch_eq_none {p : List Char → Bool} : ∀ {cs : List Char}, munch p cs = none →
    ∀ w rest, w ++ rest = cs → p w = false
  | [], h, w, rest, hw => by
      obtain ⟨rfl, rfl⟩ := List.append_eq_nil_iff.1 hw
      exact munch_none_nil h
  | c :: cs, h, [], _, _ => munch_none_nil h
  | c :: cs, h, d :: w, rest, hw => by
      obtain ⟨rfl, hw'⟩ := List.cons.inj hw
      rw [munch] at h
      split at h
      · exact absurd h (by simp)
      · next hm => exact munch_eq_none (p := fun w => p (d :: w)) hm w rest hw'

/-- What `munch` takes is in the class, and no longer prefix is. -/
theorem munch_sound {p : List Char → Bool} : ∀ {cs w rest : List Char},
    munch p cs = some (w, rest) →
      w ++ rest = cs ∧ p w = true ∧
        ∀ w' rest', w' ++ rest' = cs → p w' = true → w'.length ≤ w.length
  | [], w, rest, h => by
      have hp : p [] = true := by
        cases hp : p [] with
        | false => simp [munch, hp] at h
        | true => rfl
      obtain ⟨rfl, rfl⟩ : [] = w ∧ [] = rest := by simpa [munch, hp] using h
      exact ⟨rfl, hp, fun w' rest' hw _ => by simp [(List.append_eq_nil_iff.1 hw).1]⟩
  | c :: cs, w, rest, h => by
      rw [munch] at h
      cases hm : munch (fun w => p (c :: w)) cs with
      | some taken =>
          obtain ⟨v, left⟩ := taken
          rw [hm] at h
          obtain ⟨rfl, rfl⟩ : c :: v = w ∧ left = rest := by simpa using h
          obtain ⟨hv, hp, hmax⟩ := munch_sound hm
          refine ⟨by rw [List.cons_append, hv], hp, fun w' rest' hw hpw => ?_⟩
          cases w' with
          | nil => simp
          | cons d w' =>
              obtain ⟨rfl, hw'⟩ := List.cons.inj hw
              simpa using hmax w' rest' hw' hpw
      | none =>
          rw [hm] at h
          have hp : p [] = true := by
            cases hp : p [] with
            | false => simp [hp] at h
            | true => rfl
          obtain ⟨rfl, rfl⟩ : [] = w ∧ c :: cs = rest := by simpa [hp] using h
          refine ⟨rfl, hp, fun w' rest' hw hpw => ?_⟩
          cases w' with
          | nil => simp
          | cons d w' =>
              obtain ⟨rfl, hw'⟩ := List.cons.inj hw
              rw [munch_eq_none hm w' rest' hw'] at hpw
              exact absurd hpw (by simp)

/-- **Maximal munch.** The prefix taken is the longest one in the class. -/
theorem munch_eq_some_iff {p : List Char → Bool} {cs w rest : List Char} :
    munch p cs = some (w, rest) ↔
      w ++ rest = cs ∧ p w = true ∧
        ∀ w' rest', w' ++ rest' = cs → p w' = true → w'.length ≤ w.length := by
  constructor
  · exact munch_sound
  · rintro ⟨hcs, hp, hmax⟩
    cases hm : munch p cs with
    | none =>
        rw [munch_eq_none hm w rest hcs] at hp
        exact absurd hp (by simp)
    | some taken =>
        obtain ⟨v, left⟩ := taken
        obtain ⟨hv, hpv, hvmax⟩ := munch_sound hm
        have hlen : v.length = w.length :=
          Nat.le_antisymm (hmax v left hv hpv) (hvmax w rest hcs hp)
        obtain ⟨rfl, rfl⟩ := List.append_inj (hv.trans hcs.symm) hlen
        rfl

example : munch isLexeme ">>=1.5e-3f.x".toList = some (['>', '>', '='], "1.5e-3f.x".toList) := by
  decide

example : munch isLexeme "1.5e-3f.x".toList = some ("1.5e-3f".toList, ".x".toList) := by decide

theorem munch_rest_lt {cs w rest : List Char} (h : munch isLexeme cs = some (w, rest)) :
    rest.length < cs.length := by
  obtain ⟨rfl, hw, -⟩ := munch_sound h
  cases w with
  | nil => exact absurd hw (by decide)
  | cons c w =>
      simp only [List.cons_append, List.length_cons, List.length_append]
      omega

/-- The tokens of a text. A text with a comment, or with a character at which no
lexeme begins, has none. -/
def lex : List Char → Option (List Token)
  | [] => some []
  | c :: cs =>
      if isBlank c then lex cs
      else
        match _h : munch isLexeme (c :: cs) with
        | none => none
        | some (w, rest) =>
            match tokenOf? w with
            | none => none
            | some t => (lex rest).map (t :: ·)
termination_by cs => cs.length
decreasing_by
  · simp
  · exact munch_rest_lt _h

/-! ## Characters of the lexemes -/

/-- With a blank, neither a word nor a number begins. -/
theorem begins_nothing_of_isBlank {c : Char} (h : isBlank c = true) :
    isWordStart c = false ∧ c.isDigit = false := by
  simp only [isBlank, List.contains_iff_mem, List.mem_cons, List.not_mem_nil, or_false] at h
  rcases h with rfl | rfl | rfl | rfl | rfl | rfl <;> decide

theorem not_isWordStart_of_isBlank {c : Char} (h : isBlank c = true) : isWordStart c = false :=
  (begins_nothing_of_isBlank h).1

theorem not_isDigit_of_isBlank {c : Char} (h : isBlank c = true) : c.isDigit = false :=
  (begins_nothing_of_isBlank h).2

theorem isAlphanum_of_isDigit {c : Char} (h : c.isDigit = true) : c.isAlphanum = true := by
  simp [Char.isAlphanum, h]

theorem isDigit_of_isOctDigit {c : Char} (h : isOctDigit c = true) : c.isDigit = true := by
  simp only [isOctDigit, Bool.and_eq_true, decide_eq_true_eq, Char.le_def] at h
  simp only [Char.isDigit, Bool.and_eq_true, decide_eq_true_eq]
  exact ⟨h.1, UInt32.le_trans h.2 (by decide)⟩

/-- Letters as the two ranges they are in. -/
theorem isAlpha_iff {c : Char} : c.isAlpha = true ↔
    'A'.val ≤ c.val ∧ c.val ≤ 'Z'.val ∨ 'a'.val ≤ c.val ∧ c.val ≤ 'z'.val := by
  have hupper : c.isUpper = decide ('A'.val ≤ c.val ∧ c.val ≤ 'Z'.val) := rfl
  have hlower : c.isLower = (decide ('a'.val ≤ c.val) && decide (c.val ≤ 'z'.val)) := rfl
  have halpha : c.isAlpha = (c.isUpper || c.isLower) := rfl
  simp only [halpha, hupper, hlower, Bool.or_eq_true, Bool.and_eq_true, decide_eq_true_eq]

theorem isAlphanum_of_isHexDigit {c : Char} (h : Text.isHexDigit c = true) :
    c.isAlphanum = true := by
  simp only [Text.isHexDigit, Bool.or_eq_true, Bool.and_eq_true, decide_eq_true_eq,
    Char.le_def] at h
  simp only [Char.isAlphanum, Bool.or_eq_true, isAlpha_iff]
  rcases h with (h | h) | h
  · exact .inr h
  · exact .inl (.inr ⟨h.1, UInt32.le_trans h.2 (by decide)⟩)
  · exact .inl (.inl ⟨h.1, UInt32.le_trans h.2 (by decide)⟩)

theorem withoutUnsignedMark_cons (c : Char) (cs : List Char) :
    withoutUnsignedMark (c :: cs) = [] ∨
      ∃ ds, withoutUnsignedMark (c :: cs) = c :: ds := by
  rw [withoutUnsignedMark]
  split
  · cases cs with
    | nil => exact .inl rfl
    | cons d ds => exact .inr ⟨(d :: ds).dropLast, rfl⟩
  · exact .inr ⟨cs, rfl⟩

theorem mem_withoutUnsignedMark {c : Char} {cs : List Char} (h : c ∈ cs) :
    c ∈ withoutUnsignedMark cs ∨ c = 'u' ∨ c = 'U' := by
  rw [withoutUnsignedMark]
  split
  · next hlast =>
      have hne : cs ≠ [] := List.ne_nil_of_mem h
      have hcs := List.dropLast_concat_getLast hne
      rw [List.getLast?_eq_some_getLast hne, Option.some.injEq, Option.some.injEq] at hlast
      rw [← hcs, List.mem_append, List.mem_singleton] at h
      rcases h with h | h
      · exact .inl h
      · exact .inr (by rw [h]; exact hlast)
  · exact .inl h

theorem isDigit_of_isInteger_cons {c : Char} {cs : List Char} (h : isInteger (c :: cs) = true) :
    c.isDigit = true := by
  rw [isInteger] at h
  rcases withoutUnsignedMark_cons c cs with hw | ⟨ds, hw⟩
  · rw [hw] at h
    exact absurd h (by simp)
  · rw [hw] at h
    split at h
    · exact absurd h (by simp)
    · next heq => rw [(List.cons.inj heq).1]; decide
    · next heq => rw [(List.cons.inj heq).1]; decide
    · next heq => rw [(List.cons.inj heq).1]; decide
    · next heq =>
        rw [(List.cons.inj heq).1]
        exact (Bool.and_eq_true_iff.1 h).1

theorem isAlphanum_of_isInteger {cs : List Char} (h : isInteger cs = true) :
    ∀ c ∈ cs, c.isAlphanum = true := by
  intro c hc
  rcases mem_withoutUnsignedMark hc with hc | rfl | rfl
  · rw [isInteger] at h
    split at h
    · next heq => simp [heq] at hc
    · next ds heq =>
        rw [heq, List.mem_cons, List.mem_cons] at hc
        rcases hc with rfl | rfl | hc
        · decide
        · decide
        · exact isAlphanum_of_isHexDigit
            (List.all_eq_true.1 (Bool.and_eq_true_iff.1 h).2 c hc)
    · next ds heq =>
        rw [heq, List.mem_cons, List.mem_cons] at hc
        rcases hc with rfl | rfl | hc
        · decide
        · decide
        · exact isAlphanum_of_isHexDigit
            (List.all_eq_true.1 (Bool.and_eq_true_iff.1 h).2 c hc)
    · next ds heq =>
        rw [heq, List.mem_cons] at hc
        rcases hc with rfl | hc
        · decide
        · exact isAlphanum_of_isDigit (isDigit_of_isOctDigit (List.all_eq_true.1 h c hc))
    · next d ds heq =>
        rw [heq, List.mem_cons] at hc
        obtain ⟨hd, hds⟩ := Bool.and_eq_true_iff.1 h
        rcases hc with rfl | hc
        · exact isAlphanum_of_isDigit hd
        · exact isAlphanum_of_isDigit (List.all_eq_true.1 hds c hc)
  · decide
  · decide

theorem mem_withoutSign {c : Char} {cs : List Char} (h : c ∈ cs) :
    c ∈ withoutSign cs ∨ c = '+' ∨ c = '-' := by
  cases cs with
  | nil => exact .inl h
  | cons d ds =>
      rw [withoutSign]
      split
      · next hd =>
          rcases List.mem_cons.1 h with rfl | h
          · exact .inr (by simpa using hd)
          · exact .inl h
      · exact .inl h

theorem mem_takeWhile_or_dropWhile {p : Char → Bool} {c : Char} {cs : List Char} (h : c ∈ cs) :
    p c = true ∨ c ∈ cs.dropWhile p := by
  rw [← List.takeWhile_append_dropWhile (p := p) (l := cs), List.mem_append] at h
  rcases h with h | h
  · exact .inl (List.all_eq_true.1 List.all_takeWhile c h)
  · exact .inr h

theorem isAlphanum_of_isFloatSuffix {cs : List Char} (h : isFloatSuffix cs = true) :
    ∀ c ∈ cs, c.isAlphanum = true := by
  simp only [isFloatSuffix, List.contains_iff_mem, List.mem_cons, List.not_mem_nil, or_false] at h
  rcases h with rfl | rfl | rfl | rfl | rfl <;> exact List.all_eq_true.1 (by decide)

theorem isNumberChar_of_isAlphanum {c : Char} (h : c.isAlphanum = true) :
    isNumberChar c = true := by
  simp [isNumberChar, h]

theorem isNumberChar_of_isExponentPart {cs : List Char} (h : isExponentPart cs = true) :
    ∀ c ∈ cs, isNumberChar c = true := by
  cases cs with
  | nil => simp
  | cons e cs =>
      simp only [isExponentPart, Bool.and_eq_true, Bool.or_eq_true, beq_iff_eq] at h
      obtain ⟨⟨he, -⟩, hsuffix⟩ := h
      intro c hc
      rcases List.mem_cons.1 hc with rfl | hc
      · rcases he with rfl | rfl <;> decide
      · rcases mem_withoutSign hc with hc | rfl | rfl
        · rcases mem_takeWhile_or_dropWhile (p := Char.isDigit) hc with hd | hc
          · exact isNumberChar_of_isAlphanum (isAlphanum_of_isDigit hd)
          · exact isNumberChar_of_isAlphanum (isAlphanum_of_isFloatSuffix hsuffix c hc)
        · decide
        · decide

theorem isNumberChar_of_isFloat {cs : List Char} (h : isFloat cs = true) :
    ∀ c ∈ cs, isNumberChar c = true := by
  intro c hc
  rcases mem_takeWhile_or_dropWhile (p := Char.isDigit) hc with hd | hc
  · exact isNumberChar_of_isAlphanum (isAlphanum_of_isDigit hd)
  · rw [isFloat] at h
    split at h
    · next ds heq =>
        rw [heq] at hc
        obtain ⟨-, hend⟩ := Bool.and_eq_true_iff.1 h
        rcases List.mem_cons.1 hc with rfl | hc
        · decide
        · rcases mem_takeWhile_or_dropWhile (p := Char.isDigit) hc with hd | hc
          · exact isNumberChar_of_isAlphanum (isAlphanum_of_isDigit hd)
          · rcases Bool.or_eq_true_iff.1 hend with hend | hend
            · exact isNumberChar_of_isAlphanum (isAlphanum_of_isFloatSuffix hend c hc)
            · exact isNumberChar_of_isExponentPart hend c hc
    · exact isNumberChar_of_isExponentPart (Bool.and_eq_true_iff.1 h).2 c hc

/-- Number constants are written with letters, digits, points and signs only. -/
theorem isNumberChar_of_isNumber {cs : List Char} (h : isNumber cs = true) :
    ∀ c ∈ cs, isNumberChar c = true := by
  rcases Bool.or_eq_true_iff.1 h with h | h
  · exact fun c hc => isNumberChar_of_isAlphanum (isAlphanum_of_isInteger h c hc)
  · exact isNumberChar_of_isFloat h

/-- A floating constant begins with a digit, or with a point and a digit. -/
theorem isFloat_cons {c : Char} {cs : List Char} (h : isFloat (c :: cs) = true) :
    c.isDigit = true ∨ c = '.' ∧ ∃ d ds, cs = d :: ds ∧ d.isDigit = true := by
  cases hc : c.isDigit with
  | true => exact .inl rfl
  | false =>
      rw [isFloat, List.dropWhile_cons_of_neg (by simp [hc]),
        List.takeWhile_cons_of_neg (by simp [hc])] at h
      split at h
      · next ds heq =>
          obtain ⟨rfl, rfl⟩ := List.cons.inj heq
          refine .inr ⟨rfl, ?_⟩
          cases cs with
          | nil => simp at h
          | cons d ds =>
              refine ⟨d, ds, rfl, ?_⟩
              cases hd : d.isDigit with
              | true => rfl
              | false => simp [hd] at h
      · simp at h

theorem isNumber_cons {c : Char} {cs : List Char} (h : isNumber (c :: cs) = true) :
    c.isDigit = true ∨ c = '.' ∧ ∃ d ds, cs = d :: ds ∧ d.isDigit = true := by
  rcases Bool.or_eq_true_iff.1 h with h | h
  · exact .inl (isDigit_of_isInteger_cons h)
  · exact isFloat_cons h

theorem isWordStart_of_isWord {c : Char} {cs : List Char} (h : isWord (c :: cs) = true) :
    isWordStart c = true :=
  (Bool.and_eq_true_iff.1 h).1

theorem not_isDigit_of_isWordStart {c : Char} (h : isWordStart c = true) : c.isDigit = false := by
  simp only [isWordStart, Bool.or_eq_true, isAlpha_iff, beq_iff_eq] at h
  simp only [Char.isDigit, Bool.and_eq_false_iff, decide_eq_false_iff_not]
  rcases h with (h | h) | rfl
  · exact .inr fun h' => absurd (UInt32.le_trans h.1 h') (by decide)
  · exact .inr fun h' => absurd (UInt32.le_trans h.1 h') (by decide)
  · exact .inr (by decide)

theorem isWordChar_of_isWordStart {c : Char} (h : isWordStart c = true) : isWordChar c = true := by
  rcases Bool.or_eq_true_iff.1 h with h | h
  · simp [isWordChar, Char.isAlphanum, h]
  · simp [isWordChar, h]

/-- No word begins like a number. -/
theorem not_isNumber_of_isWordStart {c : Char} {cs : List Char} (h : isWordStart c = true) :
    isNumber (c :: cs) = false := by
  cases hn : isNumber (c :: cs) with
  | false => rfl
  | true =>
      rcases isNumber_cons hn with hd | ⟨rfl, -⟩
      · rw [not_isDigit_of_isWordStart h] at hd
        exact absurd hd (by simp)
      · exact absurd h (by decide)

/-! ### Punctuators and comment marks -/

def isMark (cs : List Char) : Bool := isPunct cs || isCommentMark cs

/-- The characters that go on with a punctuator or a comment mark. -/
def isOperatorChar (c : Char) : Bool :=
  ['<', '>', '+', '-', '=', '&', '|', '^', '/', '*'].contains c

theorem isMark_iff {cs : List Char} :
    isMark cs = true ↔ ∃ p ∈ punctuators ++ commentMarks, p.toList = cs := by
  simp only [isMark, isPunct, isCommentMark, Bool.or_eq_true, List.any_eq_true, beq_iff_eq,
    List.mem_append]
  constructor
  · rintro (⟨p, hp, rfl⟩ | ⟨p, hp, rfl⟩)
    · exact ⟨p, .inl hp, rfl⟩
    · exact ⟨p, .inr hp, rfl⟩
  · rintro ⟨p, hp | hp, rfl⟩
    · exact .inl ⟨p, hp, rfl⟩
    · exact .inr ⟨p, hp, rfl⟩

theorem mark_chars : ∀ p ∈ punctuators ++ commentMarks, p.toList ≠ [] ∧
    (∀ c ∈ p.toList, isWordChar c = false ∧ isBlank c = false) ∧
    (∀ c ∈ p.toList.tail, isOperatorChar c = true) := by
  have hall : ∀ p ∈ punctuators ++ commentMarks, p.toList ≠ [] ∧
      p.toList.all (fun c => !isWordChar c && !isBlank c) = true ∧
      p.toList.tail.all isOperatorChar = true := by decide
  intro p hp
  obtain ⟨hne, hchars, htail⟩ := hall p hp
  exact ⟨hne, by simpa using hchars, List.all_eq_true.1 htail⟩

theorem not_isWordChar_of_isMark {cs : List Char} (h : isMark cs = true) :
    ∀ c ∈ cs, isWordChar c = false := by
  obtain ⟨p, hp, rfl⟩ := isMark_iff.1 h
  exact fun c hc => ((mark_chars p hp).2.1 c hc).1

theorem isOperatorChar_of_isMark {c : Char} {cs : List Char} (h : isMark (c :: cs) = true) :
    ∀ d ∈ cs, isOperatorChar d = true := by
  obtain ⟨p, hp, hcs⟩ := isMark_iff.1 h
  have := (mark_chars p hp).2.2
  rwa [hcs] at this

theorem not_isOperatorChar_of_isDigit {c : Char} (h : c.isDigit = true) :
    isOperatorChar c = false := by
  cases ho : isOperatorChar c with
  | false => rfl
  | true =>
      simp only [isOperatorChar, List.contains_iff_mem, List.mem_cons, List.not_mem_nil,
        or_false] at ho
      rcases ho with rfl | rfl | rfl | rfl | rfl | rfl | rfl | rfl | rfl | rfl <;>
        exact absurd h (by decide)

theorem isLexeme_eq_false_iff {cs : List Char} :
    isLexeme cs = false ↔ isWord cs = false ∧ isNumber cs = false ∧ isMark cs = false := by
  simp [isLexeme, isMark, and_assoc]

/-! ## What cannot be extended -/

theorem isLexeme_word_append {w x : List Char} {d : Char} (hw : isWord w = true)
    (hd : isWordChar d = false) : isLexeme (w ++ d :: x) = false := by
  cases w with
  | nil => exact absurd hw (by decide)
  | cons c cs =>
      have hc := isWordStart_of_isWord hw
      refine isLexeme_eq_false_iff.2 ⟨?_, not_isNumber_of_isWordStart hc, ?_⟩
      · simp [isWord, hd]
      · cases hm : isMark (c :: cs ++ d :: x) with
        | false => rfl
        | true =>
            have := not_isWordChar_of_isMark hm c (by simp)
            rw [isWordChar_of_isWordStart hc] at this
            exact absurd this (by simp)

theorem isLexeme_number_append {n x : List Char} {d : Char} (hn : isNumber n = true)
    (hd : isNumberChar d = false) : isLexeme (n ++ d :: x) = false := by
  cases n with
  | nil => exact absurd hn (by decide)
  | cons c cs =>
      have hc := isNumber_cons hn
      refine isLexeme_eq_false_iff.2 ⟨?_, ?_, ?_⟩
      · cases hw : isWord (c :: cs ++ d :: x) with
        | false => rfl
        | true =>
            rw [not_isNumber_of_isWordStart (isWordStart_of_isWord hw)] at hn
            exact absurd hn (by simp)
      · cases hm : isNumber (c :: cs ++ d :: x) with
        | false => rfl
        | true =>
            have := isNumberChar_of_isNumber hm d (by simp)
            rw [hd] at this
            exact absurd this (by simp)
      · cases hm : isMark (c :: cs ++ d :: x) with
        | false => rfl
        | true =>
            rcases hc with hc | ⟨rfl, e, ds, rfl, he⟩
            · have := not_isWordChar_of_isMark hm c (by simp)
              rw [isWordChar, isAlphanum_of_isDigit hc] at this
              exact absurd this (by simp)
            · have := isOperatorChar_of_isMark hm e (by simp)
              rw [not_isOperatorChar_of_isDigit he] at this
              exact absurd this (by simp)

theorem isLexeme_mark_append {p x : List Char} (hp : isMark p = true)
    (hmark : isMark (p ++ x) = false)
    (hpoint : p = ['.'] → ∀ d ∈ x.head?, d.isDigit = false) : isLexeme (p ++ x) = false := by
  cases p with
  | nil => exact absurd hp (by decide)
  | cons c cs =>
      have hc := not_isWordChar_of_isMark hp c (by simp)
      refine isLexeme_eq_false_iff.2 ⟨?_, ?_, hmark⟩
      · cases hw : isWord (c :: cs ++ x) with
        | false => rfl
        | true =>
            rw [isWordChar_of_isWordStart (isWordStart_of_isWord hw)] at hc
            exact absurd hc (by simp)
      · cases hn : isNumber (c :: cs ++ x) with
        | false => rfl
        | true =>
            rcases isNumber_cons hn with hd | ⟨rfl, d, ds, hcs, hd⟩
            · rw [isWordChar, isAlphanum_of_isDigit hd] at hc
              exact absurd hc (by simp)
            -- A number that begins with a point; only the point alone is a mark.
            · cases cs with
              | nil =>
                  have := hpoint rfl d (by rw [show x = d :: ds from hcs]; rfl)
                  rw [hd] at this
                  exact absurd this (by simp)
              | cons e es =>
                  have he := isOperatorChar_of_isMark hp e (by simp)
                  rw [(List.cons.inj hcs).1, not_isOperatorChar_of_isDigit hd] at he
                  exact absurd he (by simp)

theorem isMark_append {p x : List Char} {d : Char} (hp : p ≠ []) (hd : isOperatorChar d = false) :
    isMark (p ++ d :: x) = false := by
  cases p with
  | nil => exact absurd rfl hp
  | cons c cs =>
      cases hm : isMark (c :: cs ++ d :: x) with
      | false => rfl
      | true =>
          have := isOperatorChar_of_isMark hm d (by simp)
          rw [hd] at this
          exact absurd this (by simp)

/-- The marks that begin no other lexeme. -/
def brackets : List String := ["(", ")", "[", "]", ","]

theorem bracket_chars : ∀ b ∈ brackets, b ∈ punctuators ∧ b.toList ≠ [] ∧ b.toList ≠ ['.'] := by
  decide

theorem eq_of_bracket_head : ∀ b ∈ brackets, ∀ p ∈ punctuators ++ commentMarks,
    p.toList.head? = b.toList.head? → p = b := by
  decide

theorem isMark_bracket_append {b : String} {x : List Char} {d : Char} (hb : b ∈ brackets) :
    isMark (b.toList ++ d :: x) = false := by
  cases hm : isMark (b.toList ++ d :: x) with
  | false => rfl
  | true =>
      obtain ⟨p, hp, hcs⟩ := isMark_iff.1 hm
      obtain ⟨c, cs, hb'⟩ := List.exists_cons_of_ne_nil (bracket_chars b hb).2.1
      have hpb : p = b := eq_of_bracket_head b hb p hp (by rw [hcs, hb']; rfl)
      rw [hpb] at hcs
      have := congrArg List.length hcs
      simp at this

/-! ## Cutting a text -/

@[simp] theorem lex_nil : lex [] = some [] := by rw [lex]

theorem lex_blank {c : Char} {cs : List Char} (h : isBlank c = true) : lex (c :: cs) = lex cs := by
  rw [lex, if_pos h]

theorem isLexeme_of_tokenOf? {w : List Char} {t : Token} (h : tokenOf? w = some t) :
    isLexeme w = true := by
  rw [tokenOf?] at h
  split at h
  · next hw => simp [isLexeme, hw]
  · split at h
    · next hn => simp [isLexeme, hn]
    · split at h
      · next hp => simp [isLexeme, hp]
      · exact absurd h (by simp)

theorem not_isBlank_of_isLexeme {c : Char} {cs : List Char} (h : isLexeme (c :: cs) = true) :
    isBlank c = false := by
  cases hb : isBlank c with
  | false => rfl
  | true =>
      have hword : isWord (c :: cs) = false := by simp [isWord, not_isWordStart_of_isBlank hb]
      have hnumber : isNumber (c :: cs) = false := by
        cases hn : isNumber (c :: cs) with
        | false => rfl
        | true =>
            rcases isNumber_cons hn with hd | ⟨rfl, -⟩
            · rw [not_isDigit_of_isBlank hb] at hd
              exact absurd hd (by simp)
            · exact absurd hb (by decide)
      have hmark : isMark (c :: cs) = false := by
        cases hm : isMark (c :: cs) with
        | false => rfl
        | true =>
            obtain ⟨p, hp, hcs⟩ := isMark_iff.1 hm
            have := ((mark_chars p hp).2.1 c (by rw [hcs]; simp)).2
            rw [hb] at this
            exact absurd this (by simp)
      rw [isLexeme_eq_false_iff.2 ⟨hword, hnumber, hmark⟩] at h
      exact absurd h (by simp)

/-- A lexeme that the text after it cannot extend is cut off as one token. -/
theorem lex_lexeme {w rest : List Char} {t : Token} (ht : tokenOf? w = some t)
    (hmax : ∀ d x y, rest = d :: x ++ y → isLexeme (w ++ d :: x) = false) :
    lex (w ++ rest) = (lex rest).map (t :: ·) := by
  have hw := isLexeme_of_tokenOf? ht
  have hmunch : munch isLexeme (w ++ rest) = some (w, rest) := by
    refine munch_eq_some_iff.2 ⟨rfl, hw, fun v left hv hlex => ?_⟩
    -- Another lexeme in front is shorter, or goes on into the rest.
    rcases List.append_eq_append_iff.1 hv with ⟨x, rfl, -⟩ | ⟨x, rfl, hx⟩
    · simp
    · cases x with
      | nil => simp
      | cons d x =>
          rw [hmax d x left hx] at hlex
          exact absurd hlex (by simp)
  cases w with
  | nil => exact absurd hw (by decide)
  | cons c cs =>
      rw [List.cons_append] at hmunch ⊢
      rw [lex, if_neg (by simp [not_isBlank_of_isLexeme hw])]
      split
      · next hm => rw [hmunch] at hm; exact absurd hm (by simp)
      · next hm =>
          rw [hmunch] at hm
          obtain ⟨rfl, rfl⟩ := Prod.mk.inj (Option.some.inj hm)
          rw [ht]

theorem lex_word {w rest : List Char} (hw : isWord w = true)
    (hrest : ∀ d ∈ rest.head?, isWordChar d = false) :
    lex (w ++ rest) = (lex rest).map (.word (String.ofList w) :: ·) := by
  refine lex_lexeme (by simp [tokenOf?, hw]) fun d x y hr => ?_
  exact isLexeme_word_append hw (hrest d (by rw [hr]; rfl))

theorem lex_number {n rest : List Char} (hn : isNumber n = true)
    (hrest : ∀ d ∈ rest.head?, isNumberChar d = false) :
    lex (n ++ rest) = (lex rest).map (.number (String.ofList n) :: ·) := by
  have hw : isWord n = false := by
    cases n with
    | nil => rfl
    | cons c cs =>
        cases hw : isWord (c :: cs) with
        | false => rfl
        | true =>
            rw [not_isNumber_of_isWordStart (isWordStart_of_isWord hw)] at hn
            exact absurd hn (by simp)
  refine lex_lexeme (by simp [tokenOf?, hw, hn]) fun d x y hr => ?_
  exact isLexeme_number_append hn (hrest d (by rw [hr]; rfl))

theorem tokenOf?_punctuator : ∀ p ∈ punctuators, tokenOf? p.toList = some (.punct p) := by
  decide

theorem isMark_of_mem {p : String} (h : p ∈ punctuators) : isMark p.toList = true :=
  isMark_iff.2 ⟨p, List.mem_append_left _ h, rfl⟩

/-- A bracket or comma is a token of its own, whatever follows. -/
theorem lex_bracket {b : String} (hb : b ∈ brackets) (rest : List Char) :
    lex (b.toList ++ rest) = (lex rest).map (.punct b :: ·) := by
  obtain ⟨hp, -, hpoint⟩ := bracket_chars b hb
  refine lex_lexeme (tokenOf?_punctuator b hp) fun d x y hr => ?_
  exact isLexeme_mark_append (isMark_of_mem hp) (isMark_bracket_append hb)
    fun h => absurd h hpoint

/-- A punctuator in front of a text that begins with no operator character, and
with no digit after a point, is a token of its own. -/
theorem lex_operator {p : String} {rest : List Char} (hp : p ∈ punctuators)
    (hrest : ∀ d ∈ rest.head?, isOperatorChar d = false)
    (hpoint : p = "." → ∀ d ∈ rest.head?, d.isDigit = false) :
    lex (p.toList ++ rest) = (lex rest).map (.punct p :: ·) := by
  have hmark := isMark_of_mem hp
  refine lex_lexeme (tokenOf?_punctuator p hp) fun d x y hr => ?_
  have hd : d ∈ rest.head? := by rw [hr]; rfl
  refine isLexeme_mark_append hmark (isMark_append ?_ (hrest d hd)) fun h e he => ?_
  · exact (mark_chars p (List.mem_append_left _ hp)).1
  · obtain rfl : d = e := by simpa using he
    exact hpoint (String.toList_inj.1 (h.trans rfl)) d hd

end Shaderwright.Glsl

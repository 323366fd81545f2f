import Shaderwright.Expr.Printer
import Shaderwright.Proofs.Glsl.Grammar

/-!
# Written expressions read back as themselves

A tree of names, constants, operators, calls, members, indices and assignments is
written out and its text cut into tokens. The tokens are derived by the grammar for
exactly one tree: the tree itself, with the sign of a signed literal as an operator
of its own.

The proof goes through `tokens`, the tokens that the printer puts out construct by
construct. Lexing the text gives them (`lex_text`), and the grammar derives the tree
from them at the level that the tree's strength stands for (`derives_tokens`).
-/

namespace Shaderwright.Expr

open Glsl

/-! ## Trees of source text -/

def isIdentifier (x : String) : Bool := isWord x.toList && !isConstantWord x

/-- A number constant or a truth value. -/
def isConstant (t : String) : Bool := isNumber t.toList || isConstantWord t

/-- A constant with at most one minus sign before it. -/
def isConstantLiteral (t : String) : Bool :=
  match t.toList with
  | '-' :: cs => isConstant (String.ofList cs)
  | _ => isConstant t

def isBareNumber : Expr → Bool
  | .literal t => isNumber t.toList
  | _ => false

mutual

/-- Trees whose leaves are names and constants. A member of a bare number is left
out, since its point would be read as part of the number. -/
def isPlain : Expr → Bool
  | .literal t => isConstantLiteral t
  | .raw _ => false
  | .ident x => isIdentifier x
  | .unary _ x => x.isPlain
  | .binary _ l r => l.isPlain && r.isPlain
  | .call f args => isIdentifier f && arePlain args
  | .member base m => base.isPlain && !base.isBareNumber && isIdentifier m
  | .index base position => base.isPlain && position.isPlain
  | .assign _ target value => target.isPlain && value.isPlain

def arePlain : List Expr → Bool
  | [] => true
  | x :: xs => x.isPlain && arePlain xs

end

/-- The tree of a literal, with its sign as an operator. -/
def expandLiteral (t : String) : Expr :=
  match t.toList with
  | '-' :: cs => .unary .neg (.literal (String.ofList cs))
  | _ => .literal t

mutual

/-- The tree with the sign of every signed literal as an operator of its own. -/
def expandSigns : Expr → Expr
  | .literal t => expandLiteral t
  | .raw t => .raw t
  | .ident x => .ident x
  | .unary op x => .unary op x.expandSigns
  | .binary op l r => .binary op l.expandSigns r.expandSigns
  | .call f args => .call f (expandAll args)
  | .member base m => .member base.expandSigns m
  | .index base position => .index base.expandSigns position.expandSigns
  | .assign op target value => .assign op target.expandSigns value.expandSigns

def expandAll : List Expr → List Expr
  | [] => []
  | x :: xs => x.expandSigns :: expandAll xs

end

/-! ## Tokens -/

def constantToken (cs : List Char) : Token :=
  if isNumber cs then .number (String.ofList cs) else .word (String.ofList cs)

def literalTokens (t : String) : List Token :=
  match t.toList with
  | '-' :: cs => [.punct "-", constantToken cs]
  | cs => [constantToken cs]

/-- Parentheses around tokens, if they are needed. -/
def groupedTokens (needed : Bool) (ts : List Token) : List Token :=
  if needed then .punct "(" :: ts ++ [.punct ")"] else ts

mutual

/-- The tokens that an expression is written with. -/
def tokens : Expr → List Token
  | .literal t => literalTokens t
  | .raw _ => []
  | .ident x => [.word x]
  | .unary op x =>
      .punct op.symbol :: groupedTokens (x.leadsWithSign || x.strength < unaryStrength) x.tokens
  | .binary op l r =>
      groupedTokens (l.strength < op.strength) l.tokens
        ++ .punct op.symbol :: groupedTokens (r.strength < op.strength + 1) r.tokens
  | .call f args => .word f :: .punct "(" :: argTokens args ++ [.punct ")"]
  | .member base m =>
      groupedTokens (base.strength < postfixStrength) base.tokens ++ [.punct ".", .word m]
  | .index base position =>
      groupedTokens (base.strength < postfixStrength) base.tokens
        ++ .punct "[" :: position.tokens ++ [.punct "]"]
  | .assign op target value =>
      groupedTokens (target.strength < unaryStrength) target.tokens
        ++ .punct op.symbol :: groupedTokens (value.strength < assignStrength + 1) value.tokens

/-- The arguments of a call, with commas between them. -/
def argTokens : List Expr → List Token
  | [] => []
  | [x] => x.tokens
  | x :: y :: xs => x.tokens ++ .punct "," :: argTokens (y :: xs)

end

/-! ## Constants -/

theorem isWord_of_isConstantWord {w : String} (h : isConstantWord w = true) :
    isWord w.toList = true := by
  simp only [isConstantWord, Bool.or_eq_true, beq_iff_eq] at h
  rcases h with rfl | rfl <;> decide

/-- A constant begins with no sign and with no operator character. -/
theorem head_of_isConstant {t : String} (h : isConstant t = true) :
    ∃ c cs, t.toList = c :: cs ∧ isOperatorChar c = false ∧ isSign c = false := by
  rcases Bool.or_eq_true_iff.1 h with h | h
  · cases ht : t.toList with
    | nil => rw [ht] at h; exact absurd h (by decide)
    | cons c cs =>
        rw [ht] at h
        refine ⟨c, cs, rfl, ?_⟩
        rcases isNumber_cons h with hd | ⟨rfl, -⟩
        · refine ⟨not_isOperatorChar_of_isDigit hd, ?_⟩
          cases hs : isSign c with
          | false => rfl
          | true =>
              simp only [isSign, Bool.or_eq_true, beq_iff_eq] at hs
              rcases hs with rfl | rfl <;> exact absurd hd (by decide)
        · decide
  · simp only [isConstantWord, Bool.or_eq_true, beq_iff_eq] at h
    rcases h with rfl | rfl
    · exact ⟨'t', "rue".toList, rfl, by decide⟩
    · exact ⟨'f', "alse".toList, rfl, by decide⟩

theorem head_of_isIdentifier {x : String} (h : isIdentifier x = true) :
    ∃ c cs, x.toList = c :: cs ∧ isOperatorChar c = false ∧ c.isDigit = false := by
  obtain ⟨hw, -⟩ := Bool.and_eq_true_iff.1 h
  cases hx : x.toList with
  | nil => rw [hx] at hw; exact absurd hw (by decide)
  | cons c cs =>
      rw [hx] at hw
      have hc := isWordStart_of_isWord hw
      refine ⟨c, cs, rfl, ?_, not_isDigit_of_isWordStart hc⟩
      cases ho : isOperatorChar c with
      | false => rfl
      | true =>
          simp only [isOperatorChar, List.contains_iff_mem, List.mem_cons, List.not_mem_nil,
            or_false] at ho
          rcases ho with rfl | rfl | rfl | rfl | rfl | rfl | rfl | rfl | rfl | rfl <;>
            exact absurd hc (by decide)

/-- The two kinds of constant literals: signed and bare. -/
theorem isConstantLiteral_cases {t : String} (h : isConstantLiteral t = true) :
    (∃ u, t.toList = '-' :: u.toList ∧ isConstant u = true) ∨
      isConstant t = true ∧ isSigned t = false := by
  rw [isConstantLiteral] at h
  split at h
  · next cs heq => exact .inl ⟨String.ofList cs, by simpa using heq, h⟩
  · obtain ⟨c, cs, ht, -, hs⟩ := head_of_isConstant h
    exact .inr ⟨h, by rw [isSigned, ht]; exact hs⟩

theorem isSigned_of_minus {t : String} {cs : List Char} (h : t.toList = '-' :: cs) :
    isSigned t = true := by
  rw [isSigned, h]
  rfl

/-! ## Lexing the text -/

/-- What may stand after a text: neither a word nor a number goes on with it. A point
may follow an operand of a member access, unless that is a bare number. -/
def Closes (e : Expr) (rest : List Char) : Prop :=
  ∀ c ∈ rest.head?, isWordChar c = false ∧
    (isNumberChar c = false ∨ c = '.' ∧ postfixStrength ≤ e.strength ∧ e.isBareNumber = false)

/-- The texts that the printer puts after any expression. -/
def separators : List String := [" ", ")", "[", "]", ","]

theorem separator_chars : ∀ s ∈ separators, ∃ c cs, s.toList = c :: cs ∧
    isWordChar c = false ∧ isNumberChar c = false := by
  simp only [separators, List.forall_mem_cons]
  refine ⟨⟨' ', [], by decide⟩, ⟨')', [], by decide⟩, ⟨'[', [], by decide⟩, ⟨']', [], by decide⟩,
    ⟨',', [], by decide⟩, fun s hs => nomatch hs⟩

theorem closes_separator {s : String} (hs : s ∈ separators) (e : Expr) (rest : List Char) :
    Closes e (s.toList ++ rest) := by
  intro c hc
  obtain ⟨d, ds, hd, hw, hn⟩ := separator_chars s hs
  obtain rfl : d = c := by simpa [hd] using hc
  exact ⟨hw, .inl hn⟩

/-- A constant is cut off as one token. -/
theorem lex_constant {u : String} {rest : List Char} (hu : isConstant u = true)
    (hrest : ∀ c ∈ rest.head?, isWordChar c = false ∧
      (isNumberChar c = false ∨ isNumber u.toList = false)) :
    lex (u.toList ++ rest) = (lex rest).map (constantToken u.toList :: ·) := by
  cases hn : isNumber u.toList with
  | true =>
      rw [lex_number hn fun c hc => ((hrest c hc).2.resolve_right (by simp [hn])), constantToken,
        if_pos hn]
  | false =>
      have hw : isConstantWord u = true := by simpa [isConstant, hn] using hu
      rw [lex_word (isWord_of_isConstantWord hw) fun c hc => (hrest c hc).1, constantToken,
        if_neg (by simp [hn])]

theorem lex_literal {t : String} {rest : List Char} (ht : isConstantLiteral t = true)
    (hrest : Closes (.literal t) rest) :
    lex (t.toList ++ rest) = (lex rest).map (literalTokens t ++ ·) := by
  rcases isConstantLiteral_cases ht with ⟨u, htu, hu⟩ | ⟨ht, hs⟩
  · have hmin : isSigned t = true := isSigned_of_minus htu
    obtain ⟨c, cs, huc, hop, -⟩ := head_of_isConstant hu
    have hstart : ∀ d ∈ (u.toList ++ rest).head?, isOperatorChar d = false := by
      rw [huc]
      intro d hd
      obtain rfl : c = d := by simpa using hd
      exact hop
    have hlex : lex ("-".toList ++ (u.toList ++ rest))
        = (lex (u.toList ++ rest)).map (.punct "-" :: ·) :=
      lex_operator (by decide) hstart fun h => absurd h (by decide)
    rw [htu, List.cons_append]
    show lex ("-".toList ++ (u.toList ++ rest)) = _
    rw [hlex, lex_constant hu]
    · simp [literalTokens, htu, Function.comp_def]
    · intro d hd
      obtain ⟨hw, hn | ⟨-, hstrength, -⟩⟩ := hrest d hd
      · exact ⟨hw, .inl hn⟩
      · exact absurd hstrength (by simp [strength, hmin, unaryStrength, postfixStrength])
  · have htokens : literalTokens t = [constantToken t.toList] := by
      rw [literalTokens]
      split
      · next cs heq =>
          rw [isSigned_of_minus heq] at hs
          exact absurd hs (by simp)
      · rfl
    rw [lex_constant ht, htokens]
    · rfl
    · intro d hd
      obtain ⟨hw, hn | ⟨-, -, hbare⟩⟩ := hrest d hd
      · exact ⟨hw, .inl hn⟩
      · exact ⟨hw, .inr hbare⟩

theorem lex_name {x : String} {rest : List Char} (hx : isIdentifier x = true)
    (hrest : ∀ c ∈ rest.head?, isWordChar c = false) :
    lex (x.toList ++ rest) = (lex rest).map (.word x :: ·) := by
  rw [lex_word (Bool.and_eq_true_iff.1 hx).1 hrest, String.ofList_toList]

theorem lex_space (cs : List Char) : lex (' ' :: cs) = lex cs := lex_blank rfl

/-- An operator between blanks. -/
theorem lex_spaced {s : String} (hs : s ∈ punctuators) (hpoint : s ≠ ".") (cs : List Char) :
    lex (" ".toList ++ s.toList ++ " ".toList ++ cs) = (lex cs).map (.punct s :: ·) := by
  show lex (' ' :: (s.toList ++ [' '] ++ cs)) = _
  rw [lex_space, List.append_assoc, lex_operator hs ?_ (fun h => absurd h hpoint)]
  · show (lex (' ' :: cs)).map _ = _
    rw [lex_space]
  · intro d hd
    obtain rfl : ' ' = d := by simpa using hd
    decide

theorem postfixStrength_le_of_unsigned {e : Expr} (hs : e.leadsWithSign = false)
    (h : unaryStrength ≤ e.strength) : postfixStrength ≤ e.strength := by
  cases e with
  | literal t =>
      have ht : isSigned t = false := hs
      simp [strength, ht, atomStrength, postfixStrength]
  | unary op x => exact absurd hs (by simp [leadsWithSign])
  | binary op l r =>
      cases op <;> exact absurd h (by simp [strength, BinaryOp.strength, unaryStrength])
  | raw t => exact absurd h (by simp [strength, unaryStrength])
  | assign op t v => exact absurd h (by simp [strength, assignStrength, unaryStrength])
  | ident x => simp [strength, atomStrength, postfixStrength]
  | call f args => simp [strength, atomStrength, postfixStrength]
  | member base m => simp [strength]
  | index base position => simp [strength]

/-- The first character of an operand that needs no parentheses under a sign goes on
with no operator. -/
theorem head_of_text : ∀ {e : Expr}, e.isPlain = true → postfixStrength ≤ e.strength →
    ∃ c cs, e.text.toList = c :: cs ∧ isOperatorChar c = false
  | .literal t, h, hs => by
      rcases isConstantLiteral_cases h with ⟨u, htu, -⟩ | ⟨ht, -⟩
      · have := isSigned_of_minus htu
        exact absurd hs (by simp [strength, this, unaryStrength, postfixStrength])
      · obtain ⟨c, cs, htc, hop, -⟩ := head_of_isConstant ht
        exact ⟨c, cs, by rw [text]; exact htc, hop⟩
  | .raw t, h, _ => by simp [isPlain] at h
  | .ident x, h, _ => by
      obtain ⟨c, cs, hx, hop, -⟩ := head_of_isIdentifier h
      exact ⟨c, cs, by rw [text]; exact hx, hop⟩
  | .call f args, h, _ => by
      obtain ⟨c, cs, hf, hop, -⟩ := head_of_isIdentifier (Bool.and_eq_true_iff.1 h).1
      exact ⟨c, _, by simp only [text, String.toList_append, hf, List.cons_append]; rfl, hop⟩
  | .member base m, h, _ => by
      simp only [isPlain, Bool.and_eq_true] at h
      by_cases hb : base.strength < postfixStrength
      · exact ⟨'(', _, by simp only [text, grouped, hb, decide_true, if_true,
          String.toList_append]; rfl, by decide⟩
      · obtain ⟨c, cs, htext, hop⟩ := head_of_text h.1.1 (Nat.le_of_not_lt hb)
        exact ⟨c, _, by simp only [text, grouped, hb, decide_false, Bool.false_eq_true, if_false,
          String.toList_append, htext, List.cons_append]; rfl, hop⟩
  | .index base position, h, _ => by
      simp only [isPlain, Bool.and_eq_true] at h
      by_cases hb : base.strength < postfixStrength
      · exact ⟨'(', _, by simp only [text, grouped, hb, decide_true, if_true,
          String.toList_append]; rfl, by decide⟩
      · obtain ⟨c, cs, htext, hop⟩ := head_of_text h.1 (Nat.le_of_not_lt hb)
        exact ⟨c, _, by simp only [text, grouped, hb, decide_false, Bool.false_eq_true, if_false,
          String.toList_append, htext, List.cons_append]; rfl, hop⟩
  | .unary op x, _, hs => by simp [strength, unaryStrength, postfixStrength] at hs
  | .binary op l r, _, hs => by
      cases op <;> simp [strength, BinaryOp.strength, postfixStrength] at hs
  | .assign op t v, _, hs => by simp [strength, assignStrength, postfixStrength] at hs

/-- What a text lexes to in front of anything that closes it. -/
def Lexes (e : Expr) : Prop :=
  ∀ rest, Closes e rest → lex (e.text.toList ++ rest) = (lex rest).map (e.tokens ++ ·)

/-- Parentheses are tokens of their own, so a grouped text needs nothing of what
follows. -/
theorem lex_grouped {e : Expr} (h : e.Lexes) {needed : Bool} {rest : List Char}
    (hrest : needed = false → Closes e rest) :
    lex ((grouped needed e.text).toList ++ rest)
      = (lex rest).map (groupedTokens needed e.tokens ++ ·) := by
  cases needed with
  | false => exact h rest (hrest rfl)
  | true =>
      have hclose : lex (e.text.toList ++ (")".toList ++ rest))
          = (lex rest).map (e.tokens ++ .punct ")" :: ·) := by
        rw [h _ (closes_separator (by decide) e rest), lex_bracket (by decide)]
        simp [Function.comp_def]
      rw [grouped, if_pos rfl, String.toList_append, String.toList_append, List.append_assoc,
        List.append_assoc, lex_bracket (by decide), hclose]
      simp [groupedTokens, Function.comp_def]

theorem closes_of_strength_lt {e d : Expr} {rest : List Char} (h : Closes e rest)
    (he : e.strength < postfixStrength) : Closes d rest := by
  intro c hc
  obtain ⟨hw, hn | ⟨-, hs, -⟩⟩ := h c hc
  · exact ⟨hw, .inl hn⟩
  · omega

theorem symbol_mem_of_unary (op : UnaryOp) : op.symbol ∈ punctuators := by
  cases op <;> decide

theorem symbol_mem_of_binary (op : BinaryOp) : op.symbol ∈ punctuators ∧ op.symbol ≠ "." := by
  cases op <;> decide

theorem symbol_mem_of_assign (op : AssignOp) : op.symbol ∈ punctuators ∧ op.symbol ≠ "." := by
  cases op <;> decide

theorem lexes_literal {t : String} (h : isConstantLiteral t = true) : (literal t).Lexes := by
  intro rest hrest
  rw [text, tokens]
  exact lex_literal h hrest

theorem lexes_ident {x : String} (h : isIdentifier x = true) : (ident x).Lexes := by
  intro rest hrest
  rw [text, tokens]
  exact lex_name h fun c hc => (hrest c hc).1

theorem lexes_unary {op : UnaryOp} {x : Expr} (hx : x.isPlain = true) (h : x.Lexes) :
    (unary op x).Lexes := by
  intro rest hrest
  have hclose : Closes x rest :=
    closes_of_strength_lt hrest (by simp [strength, unaryStrength, postfixStrength])
  -- the operand begins with a parenthesis or with an operand that has no sign
  have hhead : ∃ c cs, (grouped (x.leadsWithSign || x.strength < unaryStrength) x.text).toList
      = c :: cs ∧ isOperatorChar c = false := by
    cases hneeded : (x.leadsWithSign || decide (x.strength < unaryStrength)) with
    | true => exact ⟨'(', _, by simp only [grouped, if_true, String.toList_append]; rfl, by decide⟩
    | false =>
        simp only [Bool.or_eq_false_iff, decide_eq_false_iff_not, Nat.not_lt] at hneeded
        exact head_of_text hx (postfixStrength_le_of_unsigned hneeded.1 hneeded.2)
  obtain ⟨c, cs, htext, hop⟩ := hhead
  rw [text, tokens, String.toList_append, List.append_assoc,
    lex_operator (symbol_mem_of_unary op) ?_ ?_, lex_grouped h fun _ => hclose]
  · simp [Function.comp_def]
  · intro d hd
    obtain rfl : c = d := by simpa [htext] using hd
    exact hop
  · intro hpoint
    cases op <;> exact absurd hpoint (by decide)

/-- Two operands with an operator between blanks. -/
theorem lex_between {l r : Expr} (hl : l.Lexes) (hr : r.Lexes) {s : String}
    (hs : s ∈ punctuators) (hpoint : s ≠ ".") {left right : Bool} {rest : List Char}
    (hrest : Closes r rest) :
    lex ((grouped left l.text ++ " " ++ s ++ " " ++ grouped right r.text).toList ++ rest)
      = (lex rest).map
          (groupedTokens left l.tokens ++ .punct s :: groupedTokens right r.tokens ++ ·) := by
  have hspaced := lex_spaced hs hpoint ((grouped right r.text).toList ++ rest)
  simp only [String.toList_append, List.append_assoc] at hspaced ⊢
  rw [lex_grouped hl fun _ => closes_separator (by decide) l _, hspaced,
    lex_grouped hr fun _ => hrest]
  simp [Function.comp_def]

theorem lexes_binary {op : BinaryOp} {l r : Expr} (hl : l.Lexes) (hr : r.Lexes) :
    (binary op l r).Lexes := by
  intro rest hrest
  obtain ⟨hmem, hpoint⟩ := symbol_mem_of_binary op
  refine lex_between hl hr hmem hpoint (closes_of_strength_lt hrest ?_)
  cases op <;> simp [strength, BinaryOp.strength, postfixStrength]

theorem lexes_assign {op : AssignOp} {t v : Expr} (ht : t.Lexes) (hv : v.Lexes) :
    (assign op t v).Lexes := by
  intro rest hrest
  obtain ⟨hmem, hpoint⟩ := symbol_mem_of_assign op
  exact lex_between ht hv hmem hpoint
    (closes_of_strength_lt hrest (by simp [strength, assignStrength, postfixStrength]))

theorem lexes_member {base : Expr} {m : String} (hb : base.Lexes)
    (hbare : base.isBareNumber = false) (hm : isIdentifier m = true) : (member base m).Lexes := by
  intro rest hrest
  have hpoint : lex (".".toList ++ (m.toList ++ rest))
      = (lex rest).map (.punct "." :: .word m :: ·) := by
    obtain ⟨c, cs, hc, hop, hdigit⟩ := head_of_isIdentifier hm
    rw [lex_operator (by decide) ?_ ?_, lex_name hm fun d hd => (hrest d hd).1]
    · simp [Function.comp_def]
    · intro d hd
      obtain rfl : c = d := by simpa [hc] using hd
      exact hop
    · intro _ d hd
      obtain rfl : c = d := by simpa [hc] using hd
      exact hdigit
  have hclose : (decide (base.strength < postfixStrength)) = false →
      Closes base (".".toList ++ (m.toList ++ rest)) := by
    intro hs c hc
    obtain rfl : '.' = c := by simpa using hc
    exact ⟨by decide, .inr ⟨rfl, by simpa using hs, hbare⟩⟩
  rw [text, tokens]
  simp only [String.toList_append, List.append_assoc]
  rw [lex_grouped hb hclose, hpoint]
  simp [Function.comp_def]

theorem lexes_index {base position : Expr} (hb : base.Lexes) (hp : position.Lexes) :
    (index base position).Lexes := by
  intro rest hrest
  rw [text, tokens]
  simp only [String.toList_append, List.append_assoc]
  rw [lex_grouped hb fun _ => closes_separator (by decide) base _, lex_bracket (by decide),
    hp _ (closes_separator (by decide) position _), lex_bracket (by decide)]
  simp [Function.comp_def]

theorem lex_comma (cs : List Char) : lex (", ".toList ++ cs) = (lex cs).map (.punct "," :: ·) := by
  show lex (",".toList ++ (' ' :: cs)) = _
  rw [lex_bracket (by decide), lex_space]

theorem lexes_call {f : String} {args : List Expr} (hf : isIdentifier f = true)
    (h : ∀ rest, lex ((Text.join ", " (argTexts args)).toList ++ (")".toList ++ rest))
      = (lex (")".toList ++ rest)).map (argTokens args ++ ·)) : (call f args).Lexes := by
  intro rest hrest
  rw [text, tokens]
  simp only [String.toList_append, List.append_assoc]
  have hpar : ∀ cs, ∀ c ∈ ("(".toList ++ cs).head?, isWordChar c = false := by
    intro cs c hc
    obtain rfl : '(' = c := by simpa using hc
    decide
  rw [lex_name hf (hpar _), lex_bracket (by decide), h, lex_bracket (by decide)]
  simp [Function.comp_def]

mutual

/-- **Lexing the text.** Every construct of a plain tree is cut where the printer put
it together. -/
theorem lex_text : ∀ {e : Expr}, e.isPlain = true → e.Lexes
  | .literal t, h => lexes_literal h
  | .raw t, h => by simp [isPlain] at h
  | .ident x, h => lexes_ident h
  | .unary op x, h => lexes_unary h (lex_text h)
  | .binary op l r, h => by
      obtain ⟨hl, hr⟩ := Bool.and_eq_true_iff.1 h
      exact lexes_binary (lex_text hl) (lex_text hr)
  | .call f args, h => by
      obtain ⟨hf, hargs⟩ := Bool.and_eq_true_iff.1 h
      exact lexes_call hf (lex_argTexts hargs)
  | .member base m, h => by
      simp only [isPlain, Bool.and_eq_true, Bool.not_eq_true'] at h
      exact lexes_member (lex_text h.1.1) h.1.2 h.2
  | .index base position, h => by
      obtain ⟨hb, hp⟩ := Bool.and_eq_true_iff.1 h
      exact lexes_index (lex_text hb) (lex_text hp)
  | .assign op t v, h => by
      obtain ⟨ht, hv⟩ := Bool.and_eq_true_iff.1 h
      exact lexes_assign (lex_text ht) (lex_text hv)

theorem lex_argTexts : ∀ {args : List Expr}, arePlain args = true → ∀ rest,
    lex ((Text.join ", " (argTexts args)).toList ++ (")".toList ++ rest))
      = (lex (")".toList ++ rest)).map (argTokens args ++ ·)
  | [], _, rest => by simp [argTexts, Text.join, argTokens]
  | [x], h, rest => by
      simp only [arePlain, Bool.and_true] at h
      exact lex_text h _ (closes_separator (by decide) x rest)
  | x :: y :: xs, h, rest => by
      obtain ⟨hx, hys⟩ := Bool.and_eq_true_iff.1 h
      have ih := lex_argTexts hys rest
      simp only [argTexts] at ih
      simp only [argTexts, Text.join, argTokens, String.toList_append, List.append_assoc]
      -- A separator closes every argument, whatever the next one starts with.
      have hclose : Closes x (", ".toList ++
          ((Text.join ", " (y.text :: argTexts xs)).toList ++ (")".toList ++ rest))) :=
        closes_separator (s := ",") (by decide) x _
      rw [lex_text hx _ hclose, lex_comma, ih]
      simp [Function.comp_def]

end

/-! ## Deriving the tree -/

/-- The kind of expression that a strength stands for. -/
def kindOf (strength : Nat) : Nonterminal :=
  if postfixStrength ≤ strength then .suffixed
  else if unaryStrength ≤ strength then .unary
  else if 4 ≤ strength then .binary (unaryStrength - strength)
  else .assignment

theorem derives_binary_of_le {j k : Nat} {ts : List Token} {e : Expr}
    (h : Derives (.binary j) ts e) (hjk : j ≤ k) : Derives (.binary k) ts e := by
  induction hjk with
  | refl => exact h
  | step _ ih => exact .ofTighter ih

/-- An operand of a binary operator may be anything that binds at least as tightly. -/
theorem derives_binary {s k : Nat} {ts : List Token} {e : Expr} (h : Derives (kindOf s) ts e)
    (hs : 4 ≤ s) (hk : unaryStrength - s ≤ k) : Derives (.binary k) ts e := by
  rw [kindOf] at h
  split at h
  · exact derives_binary_of_le (.ofUnary (.ofSuffixed h)) (Nat.zero_le k)
  · split at h
    · exact derives_binary_of_le (.ofUnary h) (Nat.zero_le k)
    · exact derives_binary_of_le h hk

theorem derives_assignment {s : Nat} {ts : List Token} {e : Expr} (h : Derives (kindOf s) ts e) :
    Derives .assignment ts e := by
  by_cases hs : 4 ≤ s
  · exact .ofBinary (derives_binary h hs (by simp only [unaryStrength]; omega))
  · rw [kindOf, if_neg (by simp only [postfixStrength]; omega),
      if_neg (by simp only [unaryStrength]; omega), if_neg hs] at h
    exact h

/-- What binds tightly may stand where looser expressions may. -/
theorem derives_of_le {m s : Nat} {ts : List Token} {e : Expr} (h : Derives (kindOf s) ts e)
    (hm : m ≤ s) : Derives (kindOf m) ts e := by
  by_cases hm12 : postfixStrength ≤ m
  · rw [kindOf, if_pos (Nat.le_trans hm12 hm)] at h
    rwa [kindOf, if_pos hm12]
  · by_cases hm11 : unaryStrength ≤ m
    · rw [kindOf, if_neg hm12, if_pos hm11]
      rw [kindOf] at h
      split at h
      · exact .ofSuffixed h
      · rwa [if_pos (Nat.le_trans hm11 hm)] at h
    · by_cases hm4 : 4 ≤ m
      · rw [kindOf, if_neg hm12, if_neg hm11, if_pos hm4]
        exact derives_binary h (Nat.le_trans hm4 hm) (by omega)
      · rw [kindOf, if_neg hm12, if_neg hm11, if_neg hm4]
        exact derives_assignment h

/-- Parentheses lift an expression to any place. -/
theorem derives_grouped {s m : Nat} {ts : List Token} {e : Expr} {needed : Bool}
    (h : Derives (kindOf s) ts e) (hneeded : needed = false → m ≤ s)
    (hm : m ≤ postfixStrength) : Derives (kindOf m) (groupedTokens needed ts) e := by
  cases needed with
  | false => exact derives_of_le h (hneeded rfl)
  | true =>
      have hgroup := Derives.ofPrimary (.group (derives_assignment h))
      exact derives_of_le (s := postfixStrength) (by rwa [kindOf, if_pos (Nat.le_refl _)]) hm

theorem unaryOp?_symbol (op : UnaryOp) : unaryOp? op.symbol = some op := by
  cases op <;> rfl

/-- The strength of an operator agrees with its level in the grammar. -/
theorem binaryOp?_symbol (op : BinaryOp) :
    binaryOp? op.symbol = some (10 - op.strength, op) ∧ 4 ≤ op.strength ∧ op.strength ≤ 10 := by
  cases op <;> decide

theorem assignOp?_symbol (op : AssignOp) : assignOp? op.symbol = some op := by
  cases op <;> rfl

theorem derives_constant {u : String} (h : isConstant u = true) :
    Derives .suffixed [constantToken u.toList] (.literal u) := by
  rw [constantToken]
  split
  · exact .ofPrimary (by rw [String.ofList_toList]; exact .number)
  · next hn =>
      have hw : isConstantWord u = true := by simpa [isConstant, hn] using h
      exact .ofPrimary (by rw [String.ofList_toList]; exact .constant hw)

theorem derives_literal {t : String} (h : isConstantLiteral t = true) :
    Derives (kindOf (literal t).strength) (literalTokens t) (expandLiteral t) := by
  rcases isConstantLiteral_cases h with ⟨u, htu, hu⟩ | ⟨ht, hs⟩
  -- A literal with a sign prints like the negation of the rest of it.
  · have hstrength : (literal t).strength = unaryStrength := by
      simp [strength, isSigned_of_minus htu]
    have hsign : Derives .unary [.punct "-", constantToken u.toList] (.unary .neg (.literal u)) :=
      .sign rfl (.ofSuffixed (derives_constant hu))
    rw [hstrength]
    simpa [kindOf, unaryStrength, postfixStrength, literalTokens, expandLiteral, htu] using hsign
  · have hstrength : (literal t).strength = atomStrength := by simp [strength, hs]
    have hne : ∀ cs, t.toList ≠ '-' :: cs := by
      intro cs heq
      rw [isSigned_of_minus heq] at hs
      exact absurd hs (by simp)
    have hexpand : expandLiteral t = .literal t := by
      rw [expandLiteral]
      split
      · next cs heq => exact absurd heq (hne cs)
      · rfl
    have htokens : literalTokens t = [constantToken t.toList] := by
      rw [literalTokens]
      split
      · next cs heq => exact absurd heq (hne cs)
      · rfl
    rw [hstrength, hexpand, htokens]
    exact derives_constant ht

theorem isConstantWord_of_isIdentifier {x : String} (h : isIdentifier x = true) :
    isConstantWord x = false := by
  simpa using (Bool.and_eq_true_iff.1 h).2

theorem derives_unary {op : UnaryOp} {x : Expr}
    (h : Derives (kindOf x.strength) x.tokens x.expandSigns) :
    Derives (kindOf (unary op x).strength) (unary op x).tokens (unary op x).expandSigns := by
  have hx : Derives (kindOf unaryStrength)
      (groupedTokens (x.leadsWithSign || x.strength < unaryStrength) x.tokens) x.expandSigns :=
    derives_grouped h (by simp) (by decide)
  rw [tokens, expandSigns]
  exact .sign (unaryOp?_symbol op) hx

theorem derives_operation {op : BinaryOp} {l r : Expr}
    (hl : Derives (kindOf l.strength) l.tokens l.expandSigns)
    (hr : Derives (kindOf r.strength) r.tokens r.expandSigns) :
    Derives (kindOf (binary op l r).strength) (binary op l r).tokens
      (binary op l r).expandSigns := by
  obtain ⟨hop, hlow, hhigh⟩ := binaryOp?_symbol op
  have hleft : Derives (kindOf op.strength) (groupedTokens (l.strength < op.strength) l.tokens)
      l.expandSigns :=
    derives_grouped hl (by simp) (by simp only [postfixStrength]; omega)
  have hright : Derives (kindOf (op.strength + 1))
      (groupedTokens (r.strength < op.strength + 1) r.tokens) r.expandSigns :=
    derives_grouped hr (by simp) (by simp only [postfixStrength]; omega)
  -- The right operand is kept strictly tighter, as the level nests on the left only.
  have hop' := Derives.operation hop
    (derives_binary (k := 10 - op.strength + 1) hleft hlow (by simp only [unaryStrength]; omega))
    (derives_binary (k := 10 - op.strength) hright (by omega)
      (by simp only [unaryStrength]; omega))
  rw [tokens, expandSigns, strength, kindOf, if_neg (by simp only [postfixStrength]; omega),
    if_neg (by simp only [unaryStrength]; omega), if_pos hlow]
  rwa [show unaryStrength - op.strength = 10 - op.strength + 1 by
    simp only [unaryStrength]; omega]

theorem derives_assign {op : AssignOp} {t v : Expr}
    (ht : Derives (kindOf t.strength) t.tokens t.expandSigns)
    (hv : Derives (kindOf v.strength) v.tokens v.expandSigns) :
    Derives (kindOf (assign op t v).strength) (assign op t v).tokens
      (assign op t v).expandSigns := by
  have htarget : Derives (kindOf unaryStrength)
      (groupedTokens (t.strength < unaryStrength) t.tokens) t.expandSigns :=
    derives_grouped ht (by simp) (by decide)
  have hvalue : Derives (kindOf (assignStrength + 1))
      (groupedTokens (v.strength < assignStrength + 1) v.tokens) v.expandSigns :=
    derives_grouped hv (by simp) (by decide)
  rw [tokens, expandSigns]
  exact .assign (assignOp?_symbol op) htarget hvalue

theorem derives_base {base : Expr}
    (h : Derives (kindOf base.strength) base.tokens base.expandSigns) :
    Derives .suffixed (groupedTokens (base.strength < postfixStrength) base.tokens)
      base.expandSigns :=
  derives_grouped (m := postfixStrength) h (by simp) (Nat.le_refl _)

mutual

/-- **Deriving the tree.** The tokens of a plain tree are derived for the tree, as an
expression that binds as tightly as the tree's strength says. -/
theorem derives_tokens : ∀ {e : Expr}, e.isPlain = true →
    Derives (kindOf e.strength) e.tokens e.expandSigns
  | .literal t, h => by
      rw [tokens, expandSigns]
      exact derives_literal h
  | .raw t, h => by simp [isPlain] at h
  | .ident x, h => by
      rw [tokens, expandSigns]
      exact .ofPrimary (.name (isConstantWord_of_isIdentifier h))
  | .unary op x, h => derives_unary (derives_tokens h)
  | .binary op l r, h => by
      obtain ⟨hl, hr⟩ := Bool.and_eq_true_iff.1 h
      exact derives_operation (derives_tokens hl) (derives_tokens hr)
  | .call f [], h => by
      have hf := isConstantWord_of_isIdentifier (Bool.and_eq_true_iff.1 h).1
      rw [tokens, expandSigns]
      exact .callEmpty hf
  | .call f [x], h => by
      obtain ⟨hf, hx⟩ := Bool.and_eq_true_iff.1 h
      simp only [arePlain, Bool.and_true] at hx
      have hfirst := Derives.firstArgument (isConstantWord_of_isIdentifier hf)
        (derives_assignment (derives_tokens hx))
      rw [tokens, expandSigns]
      exact .call hfirst
  | .call f (x :: y :: xs), h => by
      obtain ⟨hf, hargs⟩ := Bool.and_eq_true_iff.1 h
      obtain ⟨hx, hys⟩ := Bool.and_eq_true_iff.1 hargs
      have hfirst := Derives.firstArgument (isConstantWord_of_isIdentifier hf)
        (derives_assignment (derives_tokens hx))
      have hall := derives_argTokens hys (by simp) hfirst
      rw [tokens, expandSigns]
      exact .call hall
  | .member base m, h => by
      simp only [isPlain, Bool.and_eq_true] at h
      rw [tokens, expandSigns]
      exact .member (derives_base (derives_tokens h.1.1)) (isConstantWord_of_isIdentifier h.2)
  | .index base position, h => by
      obtain ⟨hb, hp⟩ := Bool.and_eq_true_iff.1 h
      rw [tokens, expandSigns]
      exact .index (derives_base (derives_tokens hb)) (derives_assignment (derives_tokens hp))
  | .assign op t v, h => by
      obtain ⟨ht, hv⟩ := Bool.and_eq_true_iff.1 h
      exact derives_assign (derives_tokens ht) (derives_tokens hv)

/-- Further arguments of a call that has some already. -/
theorem derives_argTokens : ∀ {args : List Expr}, arePlain args = true → args ≠ [] →
    ∀ {f : String} {ts : List Token} {before : List Expr},
      Derives .arguments ts (.call f before) →
      Derives .arguments (ts ++ .punct "," :: argTokens args) (.call f (before ++ expandAll args))
  | [], _, hne => absurd rfl hne
  | [x], h, _ => by
      intro hbefore
      simp only [arePlain, Bool.and_true] at h
      exact .nextArgument hbefore (derives_assignment (derives_tokens h))
  | x :: y :: xs, h, _ => by
      intro hbefore
      obtain ⟨hx, hys⟩ := Bool.and_eq_true_iff.1 h
      have hnext := Derives.nextArgument hbefore (derives_assignment (derives_tokens hx))
      have hall := derives_argTokens hys (by simp) hnext
      simpa [argTokens, expandAll] using hall

end

/-! ## The round trip -/

/-- The trees that the grammar gives to a text. -/
def Parses (source : String) (e : Expr) : Prop :=
  ∃ ts, lex source.toList = some ts ∧ Derives .assignment ts e

/-- **Written expressions read back as themselves.** The text of a plain tree has
exactly one tree by the grammar, which is the tree itself up to the signs of its
literals. -/
theorem parses_text_iff (e : Expr) (h : e.isPlain = true) (t : Expr) :
    Parses e.text t ↔ t = e.expandSigns := by
  have hlex : lex e.text.toList = some e.tokens := by
    have := lex_text h [] (fun c hc => by simp at hc)
    simpa using this
  have hderives := derives_assignment (derives_tokens h)
  constructor
  · rintro ⟨ts, hts, ht⟩
    obtain rfl := Option.some.inj (hts.symm.trans hlex)
    exact ht.unique hderives
  · rintro rfl
    exact ⟨e.tokens, hlex, hderives⟩

/-- A compound assignment of a product with a sign on a signed constant, a grouped sum
and a call. -/
def signedProduct : Expr :=
  .assign .sub (.member (.ident "p") "x")
    (.binary .mul (.unary .neg (.literal "-1.0"))
      (.binary .add (.ident "a")
        (.call "f" [.ident "b", .assign .set (.ident "i") (.literal "2")])))

theorem parses_text_signedProduct :
    signedProduct.isPlain = true ∧ signedProduct.text = "p.x -= -(-1.0) * (a + f(b, i = 2))" ∧
      Parses "p.x -= -(-1.0) * (a + f(b, i = 2))"
        (.assign .sub (.member (.ident "p") "x")
          (.binary .mul (.unary .neg (.unary .neg (.literal "1.0")))
            (.binary .add (.ident "a")
              (.call "f" [.ident "b", .assign .set (.ident "i") (.literal "2")])))) := by
  have htext : signedProduct.text = "p.x -= -(-1.0) * (a + f(b, i = 2))" := by decide
  refine ⟨by decide, htext, ?_⟩
  rw [← htext]
  exact (parses_text_iff signedProduct (by decide) _).2 rfl

end Shaderwright.Expr

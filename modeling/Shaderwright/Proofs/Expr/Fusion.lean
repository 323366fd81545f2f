import Mathlib.Data.List.Chain
import Shaderwright.Expr.Compose
import Shaderwright.Proofs.Expr.Parts
import Shaderwright.Proofs.Expr.RoundTrip
import Shaderwright.Proofs.Glsl.Integers

/-!
# Numbers that fuse with a point

The tokens of a tree of names and whole numbers are known from the tree, and its number literals
are among them with the digits that they have. Its text is cut into these tokens exactly if no
member is taken of a number without a sign: a negative number is put in parentheses there, but
`1.x` is written with the point right after the digits, and the point is cut off with them
(`lex_text_iff_of_isCounted`).

One direction is the round trip of plain trees. For the other one, the digits and the point would
have to be two tokens, which takes a blank between them (`exists_blank_of_lex_integer_point`), and
the printer puts no blank before a point (`solid_text`).
-/

namespace Shaderwright.Expr

open Glsl

/-! ## Trees of names and whole numbers -/

/-- The texts of whole numbers and truth values. -/
inductive IsCount : String → Prop where
  | natural (n : Nat) : IsCount (Nat.repr n)
  | negative (n : Nat) : IsCount ("-" ++ Nat.repr n)
  | truth {t : String} : isConstantWord t = true → IsCount t

/-- Trees built from names, whole numbers and truth values with the operators, with calls, members
and indices, and with `saturate`, which brings in the two limits that it clamps to. -/
inductive IsCounted : Expr → Prop where
  | ident {x : String} : isIdentifier x = true → IsCounted (.ident x)
  | literal {t : String} : IsCount t → IsCounted (.literal t)
  | unary {op : UnaryOp} {x : Expr} : IsCounted x → IsCounted (.unary op x)
  | binary {op : BinaryOp} {l r : Expr} : IsCounted l → IsCounted r → IsCounted (.binary op l r)
  | call {f : String} {args : List Expr} : isIdentifier f = true → (∀ x ∈ args, IsCounted x) →
      IsCounted (.call f args)
  | member {base : Expr} {m : String} : IsCounted base → isIdentifier m = true →
      IsCounted (.member base m)
  | index {base position : Expr} : IsCounted base → IsCounted position →
      IsCounted (.index base position)
  | assign {op : AssignOp} {target value : Expr} : IsCounted target → IsCounted value →
      IsCounted (.assign op target value)
  | saturate {x : Expr} : IsCounted x → IsCounted x.saturate

theorem isCounted_ofNat (n : Nat) : IsCounted (ofNat n) := .literal (.natural n)

theorem isCounted_ofInt (n : Int) : IsCounted (ofInt n) := by
  refine .literal ?_
  split
  · exact .negative n.natAbs
  · exact .natural n.natAbs

theorem isCounted_ofBool (b : Bool) : IsCounted (ofBool b) := by
  cases b <;> exact .literal (.truth rfl)

theorem limit_texts : Decimal.ofFloat32 0.0 = "0.0" ∧ Decimal.ofFloat32 1.0 = "1.0" := by
  decide +kernel

theorem saturate_eq (x : Expr) :
    x.saturate = .call "clamp" [x, .literal "0.0", .literal "1.0"] := by
  rw [Expr.saturate, ofFloat32, ofFloat32, limit_texts.1, limit_texts.2]

theorem not_minus_of_isDigits {cs ds : List Char} (h : isDigits cs = true) : cs ≠ '-' :: ds := by
  rintro rfl
  exact absurd ((isDigits_iff.1 h).2 '-' List.mem_cons_self) (by decide)

/-! ## Plain trees -/

theorem isConstant_repr (n : Nat) : isConstant (Nat.repr n) = true := by
  rw [isConstant, isNumber_repr, Bool.true_or]

theorem isSigned_repr (n : Nat) : isSigned (Nat.repr n) = false := by
  obtain ⟨c, cs, hcs, -, hsign⟩ := head_of_isConstant (isConstant_repr n)
  rw [isSigned, hcs]
  exact hsign

theorem isConstantLiteral_of_isCount {t : String} (h : IsCount t) :
    isConstantLiteral t = true := by
  cases h with
  | natural n =>
      rw [isConstantLiteral]
      split
      · next heq => exact absurd heq (not_minus_of_isDigits (isDigits_repr n))
      · exact isConstant_repr n
  | negative n =>
      rw [isConstantLiteral, String.toList_append]
      show isConstant (String.ofList (Nat.repr n).toList) = true
      rw [String.ofList_toList]
      exact isConstant_repr n
  | truth ht =>
      simp only [isConstantWord, Bool.or_eq_true, beq_iff_eq] at ht
      rcases ht with rfl | rfl <;> decide

theorem arePlain_iff {args : List Expr} :
    arePlain args = true ↔ ∀ x ∈ args, x.isPlain = true := by
  induction args with
  | nil => simp [arePlain]
  | cons x xs ih => simp [arePlain, ih]

/-- Apart from the members of bare numbers, counted trees are plain. -/
theorem isPlain_of_isCounted {e : Expr} (h : IsCounted e)
    (hbare : ∀ b m, IsPart (.member b m) e → b.isBareNumber = false) : e.isPlain = true := by
  have hoperand : ∀ {e y : Expr}, y ∈ e.operands →
      (∀ b m, IsPart (.member b m) e → b.isBareNumber = false) →
      ∀ b m, IsPart (.member b m) y → b.isBareNumber = false :=
    fun hy hbare b m hpart => hbare b m (isPart_iff.2 (.inr ⟨_, hy, hpart⟩))
  induction h with
  | ident hx => exact hx
  | literal ht => exact isConstantLiteral_of_isCount ht
  | unary _ ih => exact ih (hoperand (by simp [operands]) hbare)
  | binary _ _ ihl ihr | index _ _ ihl ihr | assign _ _ ihl ihr =>
      rw [isPlain, ihl (hoperand (by simp [operands]) hbare),
        ihr (hoperand (by simp [operands]) hbare), Bool.and_true]
  | @call f args hf _ ih =>
      have hargs : arePlain args = true := arePlain_iff.2 fun x hx =>
        have hmem : x ∈ operands (.call f args) := hx
        ih x hx (hoperand hmem hbare)
      rw [isPlain, hf, hargs, Bool.and_true]
  | member _ hm ih =>
      have hbase := ih (hoperand (by simp [operands]) hbare)
      rw [isPlain, hbase, hm, hbare _ _ (isPart_iff.2 (.inl rfl))]
      rfl
  | saturate _ ih =>
      have hx := ih (hoperand (by simp [Expr.saturate, operands]) hbare)
      rw [saturate_eq, isPlain, arePlain, hx]
      decide

/-! ## Tokens -/

theorem isInfix_groupedTokens (needed : Bool) (ts : List Token) :
    ts <:+: groupedTokens needed ts := by
  cases needed with
  | false => exact List.infix_refl ts
  | true => exact ⟨[.punct "("], [.punct ")"], rfl⟩

theorem isInfix_argTokens {x : Expr} {args : List Expr} (h : x ∈ args) :
    x.tokens <:+: argTokens args := by
  induction args with
  | nil => cases h
  | cons y ys ih =>
      rcases List.mem_cons.1 h with rfl | h
      · cases ys with
        | nil => exact List.infix_refl _
        | cons z zs => exact (List.prefix_append _ _).isInfix
      · cases ys with
        | nil => cases h
        | cons z zs =>
            rw [argTokens]
            exact (ih h).trans ((List.suffix_cons _ _).trans (List.suffix_append _ _)).isInfix

/-- The tokens of a part stand next to each other among those of the whole. -/
theorem isInfix_tokens_of_mem {y e : Expr} (h : y ∈ e.operands) : y.tokens <:+: e.tokens := by
  cases e with
  | literal | raw | ident => cases h
  | unary op x =>
      obtain rfl := List.mem_singleton.1 h
      exact (isInfix_groupedTokens _ _).trans (List.suffix_cons _ _).isInfix
  | member base m =>
      obtain rfl := List.mem_singleton.1 h
      exact (isInfix_groupedTokens _ _).trans (List.prefix_append _ _).isInfix
  | binary op l r | assign op l r =>
      obtain rfl | rfl : y = l ∨ y = r := by simpa [operands] using h
      · exact (isInfix_groupedTokens _ _).trans (List.prefix_append _ _).isInfix
      · exact (isInfix_groupedTokens _ _).trans
          ((List.suffix_cons _ _).trans (List.suffix_append _ _)).isInfix
  | index base position =>
      obtain rfl | rfl : y = base ∨ y = position := by simpa [operands] using h
      · rw [tokens, List.append_assoc]
        exact (isInfix_groupedTokens _ _).trans (List.prefix_append _ _).isInfix
      · refine ⟨groupedTokens (base.strength < postfixStrength) base.tokens ++ [.punct "["],
          [.punct "]"], ?_⟩
        simp [tokens]
  | call f args =>
      have hmem : y ∈ args := h
      exact (isInfix_argTokens hmem).trans ⟨[.word f, .punct "("], [.punct ")"], rfl⟩

theorem isInfix_tokens_of_isPart {x e : Expr} (h : IsPart x e) : x.tokens <:+: e.tokens := by
  obtain ⟨gs, rfl⟩ := h
  induction gs generalizing x with
  | nil => exact List.infix_refl _
  | cons g gs ih => exact (isInfix_tokens_of_mem (mem_operands_iff.2 ⟨g, rfl⟩)).trans ih

/-! ## Numerals -/

/-- The numerals of a literal: its text without the sign, unless it is a truth value. -/
def literalNumerals (t : String) : List String :=
  if isConstantWord t then [] else [String.ofList (t.toList.filter (· != '-'))]

mutual

/-- The digits of the number literals, in the order in which they are written. -/
def numerals : Expr → List String
  | .literal t => literalNumerals t
  | .raw _ | .ident _ => []
  | .unary _ x => x.numerals
  | .binary _ l r => l.numerals ++ r.numerals
  | .call _ args => argNumerals args
  | .member base _ => base.numerals
  | .index base position => base.numerals ++ position.numerals
  | .assign _ target value => target.numerals ++ value.numerals

def argNumerals : List Expr → List String
  | [] => []
  | x :: xs => x.numerals ++ argNumerals xs

end

theorem filter_minus_of_isDigits {cs : List Char} (h : isDigits cs = true) :
    cs.filter (· != '-') = cs := by
  refine List.filter_eq_self.2 fun c hc => ?_
  have hdigit := (isDigits_iff.1 h).2 c hc
  rw [bne_iff_ne]
  rintro rfl
  exact absurd hdigit (by decide)

theorem not_isConstantWord_of_isDigits {t : String} (h : isDigits t.toList = true) :
    isConstantWord t = false := by
  cases hword : isConstantWord t with
  | false => rfl
  | true =>
      simp only [isConstantWord, Bool.or_eq_true, beq_iff_eq] at hword
      rcases hword with rfl | rfl <;> exact absurd h (by decide)

theorem literalTokens_repr (n : Nat) : literalTokens (Nat.repr n) = [.number (Nat.repr n)] := by
  rw [literalTokens]
  split
  · next heq => exact absurd heq (not_minus_of_isDigits (isDigits_repr n))
  · rw [constantToken, if_pos (isNumber_repr n), String.ofList_toList]

theorem numbersOf_literalTokens {t : String} (h : IsCount t) :
    numbersOf (literalTokens t) = literalNumerals t := by
  cases h with
  | natural n =>
      have hdigits := isDigits_repr n
      rw [literalNumerals, if_neg (by simp [not_isConstantWord_of_isDigits hdigits]),
        filter_minus_of_isDigits hdigits, literalTokens_repr, String.ofList_toList]
      rfl
  | negative n =>
      have hdigits := isDigits_repr n
      have htext : ("-" ++ Nat.repr n).toList = '-' :: (Nat.repr n).toList :=
        String.toList_append
      have hword : isConstantWord ("-" ++ Nat.repr n) = false := by
        simp [isConstantWord, ← String.toList_inj, htext]
      have htokens : literalTokens ("-" ++ Nat.repr n)
          = [.punct "-", .number (String.ofList (Nat.repr n).toList)] := by
        rw [literalTokens, htext]
        exact congrArg ([Token.punct "-", ·]) (if_pos (isNumber_repr n))
      rw [literalNumerals, if_neg (by simp [hword]), htokens, htext,
        List.filter_cons_of_neg (by decide), filter_minus_of_isDigits hdigits]
      rfl
  | truth ht =>
      simp only [isConstantWord, Bool.or_eq_true, beq_iff_eq] at ht
      rcases ht with rfl | rfl <;> decide

theorem numbersOf_groupedTokens (needed : Bool) (ts : List Token) :
    numbersOf (groupedTokens needed ts) = numbersOf ts := by
  cases needed with
  | false => rfl
  | true => simp [groupedTokens, numbersOf]

theorem numbersOf_argTokens {args : List Expr}
    (h : ∀ x ∈ args, numbersOf x.tokens = x.numerals) :
    numbersOf (argTokens args) = argNumerals args := by
  induction args with
  | nil => rfl
  | cons x xs ih =>
      obtain ⟨hx, hxs⟩ := List.forall_mem_cons.1 h
      cases xs with
      | nil => simpa [argTokens, argNumerals] using hx
      | cons y ys =>
          rw [argTokens, argNumerals, numbersOf_append, hx, numbersOf, ih hxs]

/-- The numbers among the tokens are those of the tree, digit by digit and in order. -/
theorem numbersOf_tokens {e : Expr} (h : IsCounted e) : numbersOf e.tokens = e.numerals := by
  induction h with
  | ident => rfl
  | literal ht => exact numbersOf_literalTokens ht
  | unary _ ih => simpa [tokens, numerals, numbersOf, numbersOf_groupedTokens] using ih
  | binary _ _ ihl ihr | assign _ _ ihl ihr =>
      simp [tokens, numerals, numbersOf, numbersOf_groupedTokens, ihl, ihr]
  | call _ _ ih => simp [tokens, numerals, numbersOf, numbersOf_argTokens ih]
  | member _ _ ih => simp [tokens, numerals, numbersOf, numbersOf_groupedTokens, ih]
  | index _ _ ihb ihp =>
      simp [tokens, numerals, numbersOf, numbersOf_groupedTokens, ihb, ihp]
  | saturate _ ih =>
      have hzero : numbersOf (literalTokens "0.0") = literalNumerals "0.0" := by decide
      have hone : numbersOf (literalTokens "1.0") = literalNumerals "1.0" := by decide
      simp [saturate_eq, tokens, argTokens, numerals, argNumerals, numbersOf, ih, hzero, hone]

/-! ## No blank before a point -/

def Attached (c d : Char) : Prop := d = '.' → isBlank c = false

/-- Text without a blank before a point, which does not begin with a point and does not end with a
blank. -/
structure Solid (cs : List Char) : Prop where
  chain : cs.IsChain Attached
  head : ∃ c, cs.head? = some c ∧ c ≠ '.'
  last : ∃ c, cs.getLast? = some c ∧ isBlank c = false

theorem attached_of_ne {c d : Char} (h : d ≠ '.') : Attached c d := fun hd => absurd hd h

/-- Neither a blank nor a point, and at least one character. -/
def isTight (cs : List Char) : Bool := !cs.isEmpty && cs.all fun c => !isBlank c && c != '.'

theorem solid_of_isTight {cs : List Char} (h : isTight cs = true) : Solid cs := by
  obtain ⟨hne, hall⟩ : cs ≠ [] ∧ ∀ c ∈ cs, isBlank c = false ∧ c ≠ '.' := by
    simpa [isTight] using h
  refine ⟨(List.isChain_isInfix cs).imp fun c d hpair => ?_, ?_, ?_⟩
  · exact attached_of_ne (hall d (hpair.subset (by simp))).2
  · obtain ⟨c, ds, rfl⟩ := List.exists_cons_of_ne_nil hne
    exact ⟨c, rfl, (hall c List.mem_cons_self).2⟩
  · exact ⟨cs.getLast hne, List.getLast?_eq_some_getLast hne, (hall _ (List.getLast_mem hne)).1⟩

theorem Solid.attached_head {bs : List Char} (hb : Solid bs) (c : Char) :
    ∀ d ∈ bs.head?, Attached c d := by
  obtain ⟨b, hhead, hpoint⟩ := hb.head
  intro d hd
  obtain rfl := Option.some.inj (hhead.symm.trans hd)
  exact attached_of_ne hpoint

theorem Solid.append {as bs : List Char} (ha : Solid as) (hb : Solid bs) : Solid (as ++ bs) := by
  obtain ⟨a, hhead, hpoint⟩ := ha.head
  obtain ⟨z, hlast, hblank⟩ := hb.last
  refine ⟨ha.chain.append hb.chain fun c _ => hb.attached_head c, ⟨a, ?_, hpoint⟩, z, ?_, hblank⟩
  · rw [List.head?_append, hhead]
    rfl
  · rw [List.getLast?_append, hlast]
    rfl

/-- Any one character may stand between solid texts: a point, since no blank is before it, and a
blank, since no point is after it. -/
theorem Solid.between {as bs : List Char} (ha : Solid as) (c : Char) (hb : Solid bs) :
    Solid (as ++ c :: bs) := by
  obtain ⟨a, hhead, hpoint⟩ := ha.head
  obtain ⟨y, hend, hsolid⟩ := ha.last
  obtain ⟨z, hlast, hblank⟩ := hb.last
  have hafter : (c :: bs).IsChain Attached :=
    List.isChain_cons.2 ⟨hb.attached_head c, hb.chain⟩
  refine ⟨ha.chain.append hafter ?_, ⟨a, ?_, hpoint⟩, z, ?_, hblank⟩
  · intro d hd e he
    obtain rfl := Option.some.inj (hend.symm.trans hd)
    obtain rfl := Option.some.inj he
    exact fun _ => hsolid
  · rw [List.head?_append, hhead]
    rfl
  · rw [List.getLast?_append, List.getLast?_cons, hlast]
    rfl

theorem solid_grouped {t : String} (h : Solid t.toList) (needed : Bool) :
    Solid (grouped needed t).toList := by
  cases needed with
  | false => exact h
  | true =>
      have hopen : Solid ['('] := solid_of_isTight rfl
      have hclose : Solid [')'] := solid_of_isTight rfl
      simpa [grouped, String.toList_append] using hopen.append (h.append hclose)

theorem solid_of_isWordChar {cs : List Char} (hne : cs ≠ [])
    (h : ∀ c ∈ cs, isWordChar c = true) : Solid cs := by
  have hchar : ∀ c ∈ cs, isBlank c = false ∧ c ≠ '.' := by
    refine fun c hc => ⟨not_isBlank_of_isWordChar (h c hc), ?_⟩
    rintro rfl
    exact absurd (h '.' hc) (by decide)
  exact solid_of_isTight (by simpa [isTight, hne] using hchar)

theorem solid_of_isIdentifier {x : String} (h : isIdentifier x = true) : Solid x.toList := by
  obtain ⟨c, cs, hx, -⟩ := head_of_isIdentifier h
  have hword := (Bool.and_eq_true_iff.1 h).1
  rw [hx] at hword ⊢
  obtain ⟨hstart, hcs⟩ := Bool.and_eq_true_iff.1 hword
  exact solid_of_isWordChar (List.cons_ne_nil c cs)
    (List.forall_mem_cons.2 ⟨isWordChar_of_isWordStart hstart, List.all_eq_true.1 hcs⟩)

theorem solid_of_isDigits {cs : List Char} (h : isDigits cs = true) : Solid cs := by
  obtain ⟨hne, hdigits⟩ := isDigits_iff.1 h
  refine solid_of_isWordChar hne fun c hc => ?_
  rw [isWordChar, isAlphanum_of_isDigit (hdigits c hc), Bool.true_or]

theorem solid_of_isCount {t : String} (h : IsCount t) : Solid t.toList := by
  cases h with
  | natural n => exact solid_of_isDigits (isDigits_repr n)
  | negative n =>
      have hsign : Solid ['-'] := solid_of_isTight rfl
      rw [String.toList_append]
      exact hsign.append (solid_of_isDigits (isDigits_repr n))
  | truth ht =>
      simp only [isConstantWord, Bool.or_eq_true, beq_iff_eq] at ht
      rcases ht with rfl | rfl <;> exact solid_of_isTight rfl

theorem solid_spaced {left s right : String} (hl : Solid left.toList) (hs : Solid s.toList)
    (hr : Solid right.toList) : Solid (left ++ " " ++ s ++ " " ++ right).toList := by
  simpa [String.toList_append] using hl.between ' ' (hs.between ' ' hr)

theorem solid_argTexts {x : Expr} {args : List Expr} (h : ∀ y ∈ x :: args, Solid y.text.toList) :
    Solid (Text.join ", " (argTexts (x :: args))).toList := by
  induction args generalizing x with
  | nil => exact h x List.mem_cons_self
  | cons y ys ih =>
      obtain ⟨hx, hys⟩ := List.forall_mem_cons.1 h
      have hcomma : Solid [','] := solid_of_isTight rfl
      simpa [argTexts, Text.join, String.toList_append] using
        hx.append (hcomma.between ' ' (ih hys))

theorem solid_call {f : String} {args : List Expr} (hf : isIdentifier f = true)
    (h : ∀ x ∈ args, Solid x.text.toList) : Solid (call f args).text.toList := by
  have hname := solid_of_isIdentifier hf
  have hclose : Solid [')'] := solid_of_isTight rfl
  have htext : (call f args).text.toList
      = f.toList ++ '(' :: ((Text.join ", " (argTexts args)).toList ++ [')']) := by
    simp [text, String.toList_append]
  rw [htext]
  cases args with
  | nil => exact hname.between '(' hclose
  | cons x xs => exact hname.between '(' ((solid_argTexts h).append hclose)

/-- **No blank before a point.** By induction over the tree. -/
theorem solid_text {e : Expr} (h : IsCounted e) : Solid e.text.toList := by
  induction h with
  | ident hx => exact solid_of_isIdentifier hx
  | literal ht => exact solid_of_isCount ht
  | @unary op _ _ ih =>
      have hsymbol : Solid op.symbol.toList := by
        cases op <;> exact solid_of_isTight rfl
      rw [text, String.toList_append]
      exact hsymbol.append (solid_grouped ih _)
  | @binary op _ _ _ _ ihl ihr =>
      have hsymbol : Solid op.symbol.toList := by
        cases op <;> exact solid_of_isTight rfl
      exact solid_spaced (solid_grouped ihl _) hsymbol (solid_grouped ihr _)
  | @assign op _ _ _ _ iht ihv =>
      have hsymbol : Solid op.symbol.toList := by
        cases op <;> exact solid_of_isTight rfl
      exact solid_spaced (solid_grouped iht _) hsymbol (solid_grouped ihv _)
  | call hf _ ih => exact solid_call hf ih
  | member _ hm ih =>
      simpa [text, String.toList_append] using
        (solid_grouped ih _).between '.' (solid_of_isIdentifier hm)
  | index _ _ ihb ihp =>
      have hclose : Solid [']'] := solid_of_isTight rfl
      simpa [text, String.toList_append] using
        (solid_grouped ihb _).between '[' (ihp.append hclose)
  | saturate _ ih =>
      -- The limits have a point each, with digits around it.
      have hzero : Solid "0".toList := solid_of_isDigits (by decide)
      have hone : Solid "1".toList := solid_of_isDigits (by decide)
      have hlimits : ∀ y ∈ [literal "0.0", literal "1.0"], Solid y.text.toList := by
        simp only [List.forall_mem_cons]
        exact ⟨hzero.between '.' hzero, hone.between '.' hzero, List.forall_mem_nil _⟩
      rw [saturate_eq]
      exact solid_call (by decide) (List.forall_mem_cons.2 ⟨ih, hlimits⟩)

/-! ## Members of bare numbers -/

theorem not_isNumber_of_minus (cs : List Char) : isNumber ('-' :: cs) = false := by
  cases h : isNumber ('-' :: cs) with
  | false => rfl
  | true =>
      rcases isNumber_cons h with hd | ⟨hpoint, -⟩
      · exact absurd hd (by decide)
      · exact absurd hpoint (by decide)

theorem eq_natural_of_isBareNumber {b : Expr} (h : IsCounted b) (hbare : b.isBareNumber = true) :
    ∃ n, b = ofNat n := by
  cases h with
  | literal ht =>
      cases ht with
      | natural n => exact ⟨n, rfl⟩
      | negative n =>
          rw [isBareNumber, String.toList_append] at hbare
          exact absurd hbare (by simp [not_isNumber_of_minus])
      | truth ht =>
          simp only [isConstantWord, Bool.or_eq_true, beq_iff_eq] at ht
          rcases ht with rfl | rfl <;> exact absurd hbare (by decide)
  | _ => cases hbare

theorem eq_of_isPart_literal {x : Expr} {t : String} (h : IsPart x (.literal t)) :
    x = .literal t := by
  rcases isPart_iff.1 h with rfl | ⟨y, hy, -⟩
  · rfl
  · cases hy

/-- What a member is taken of inside of a counted tree is one as well. -/
theorem isCounted_of_isPart_member {e : Expr} (h : IsCounted e) {b : Expr} {m : String}
    (hpart : IsPart (.member b m) e) : IsCounted b := by
  induction h with
  | literal => cases eq_of_isPart_literal hpart
  | ident =>
      rcases isPart_iff.1 hpart with heq | ⟨y, hy, -⟩
      · cases heq
      · cases hy
  | unary _ ih =>
      rcases isPart_iff.1 hpart with heq | ⟨y, hy, hinner⟩
      · cases heq
      · obtain rfl := List.mem_singleton.1 hy
        exact ih hinner
  | @binary _ l r _ _ ihl ihr | @index l r _ _ ihl ihr | @assign _ l r _ _ ihl ihr =>
      rcases isPart_iff.1 hpart with heq | ⟨y, hy, hinner⟩
      · cases heq
      · obtain rfl | rfl : y = l ∨ y = r := by simpa [operands] using hy
        · exact ihl hinner
        · exact ihr hinner
  | call _ _ ih =>
      rcases isPart_iff.1 hpart with heq | ⟨y, hy, hinner⟩
      · cases heq
      · exact ih y hy hinner
  | member hbase _ ih =>
      rcases isPart_iff.1 hpart with heq | ⟨y, hy, hinner⟩
      · cases heq
        exact hbase
      · obtain rfl := List.mem_singleton.1 hy
        exact ih hinner
  | @saturate x _ ih =>
      rcases isPart_iff.1 hpart with heq | ⟨y, hy, hinner⟩
      · cases heq
      · obtain rfl | ⟨t, rfl⟩ : y = x ∨ ∃ t, y = literal t := by
          rw [saturate_eq] at hy
          simp only [operands, List.mem_cons, List.not_mem_nil, or_false] at hy
          exact hy.imp id fun hlimit => hlimit.elim (fun h => ⟨_, h⟩) (fun h => ⟨_, h⟩)
        · exact ih hinner
        · cases eq_of_isPart_literal hinner

/-- The numeral and the point are two tokens of the tree. -/
theorem tokens_member_ofNat (n : Nat) (m : String) :
    (member (ofNat n) m).tokens = [.number (Nat.repr n), .punct ".", .word m] := by
  have hstrength : ¬ (ofNat n).strength < postfixStrength := by
    rw [ofNat, strength, isSigned_repr]
    decide
  rw [tokens, groupedTokens, if_neg (by simpa using hstrength), ofNat, tokens, literalTokens_repr]
  rfl

/-- **Numbers and points.** The numbers among the tokens of a tree of names and whole numbers are
those of the tree. Its text is cut into these tokens exactly if no member is taken of a number that
has no sign. -/
theorem lex_text_iff_of_isCounted {e : Expr} (h : IsCounted e) :
    numbersOf e.tokens = e.numerals ∧
      (lex e.text.toList = some e.tokens ↔
        ∀ b m, IsPart (.member b m) e → b.isBareNumber = false) := by
  refine ⟨numbersOf_tokens h, fun hlex b m hpart => ?_, fun hbare => ?_⟩
  · cases hnumber : b.isBareNumber with
    | false => rfl
    | true =>
        obtain ⟨n, rfl⟩ := eq_natural_of_isBareNumber (isCounted_of_isPart_member h hpart) hnumber
        -- The digits and the point would be two tokens next to each other,
        obtain ⟨front, back, htokens⟩ := isInfix_tokens_of_isPart hpart
        rw [← htokens, tokens_member_ofNat, List.append_assoc] at hlex
        obtain ⟨cs, hsuffix, hcut⟩ := exists_suffix_of_lex_append hlex
        -- and a blank would stand before the point.
        obtain ⟨before, c, after, rfl, hblank⟩ :=
          exists_blank_of_lex_integer_point (isDigits_repr n) hcut
        have hchain := (solid_text h).chain.suffix hsuffix
        have hattached : Attached c '.' := (List.isChain_append_cons_cons.1 hchain).2.1
        rw [hattached rfl] at hblank
        cases hblank
  · simpa using lex_text (isPlain_of_isCounted h hbare) [] (fun c hc => by simp at hc)

theorem isPlain_of_fill (g : Gap) (x : Expr) (h : (g.fill x).isPlain = true) :
    x.isPlain = true := by
  cases g with
  | operand op => exact h
  | left op r | indexBase r | target op r => exact (Bool.and_eq_true_iff.1 h).1
  | right op l | position l | value op l => exact (Bool.and_eq_true_iff.1 h).2
  | memberBase m => exact (Bool.and_eq_true_iff.1 (Bool.and_eq_true_iff.1 h).1).1
  | argument f before after =>
      exact arePlain_iff.1 (Bool.and_eq_true_iff.1 h).2 x (by simp)

theorem not_isBareNumber_of_isPlain {e : Expr} (h : e.isPlain = true) (b : Expr) (m : String)
    (hpart : IsPart (.member b m) e) : b.isBareNumber = false := by
  have hmember := hpart.of_fill (P := fun e => e.isPlain = true) isPlain_of_fill h
  simp only [isPlain, Bool.and_eq_true, Bool.not_eq_true'] at hmember
  exact hmember.1.2

/-- An entry of a weight increased by a component of a negative number times an index of another
number. -/
def scaledEntry : Expr :=
  .assign .add (.index (.ident "w") (ofNat 2))
    (.binary .mul (.member (ofInt (-1)) "x") (.index (ofInt 30) (ofBool true)))

theorem lex_text_iff_of_isCounted_scaledEntry :
    scaledEntry.IsCounted ∧ scaledEntry.text = "w[2] += (-1).x * 30[true]" ∧
      numbersOf scaledEntry.tokens = ["2", "1", "30"] ∧
      lex "w[2] += (-1).x * 30[true]".toList =
        some [.word "w", .punct "[", .number "2", .punct "]", .punct "+=", .punct "(", .punct "-",
          .number "1", .punct ")", .punct ".", .word "x", .punct "*", .number "30", .punct "[",
          .word "true", .punct "]"] := by
  have hcounted : scaledEntry.IsCounted :=
    .assign (.index (.ident (by decide)) (isCounted_ofNat 2))
      (.binary (.member (isCounted_ofInt (-1)) (by decide))
        (.index (isCounted_ofInt 30) (isCounted_ofBool true)))
  have htext : scaledEntry.text = "w[2] += (-1).x * 30[true]" := by decide
  obtain ⟨hnumbers, hlex⟩ := lex_text_iff_of_isCounted hcounted
  refine ⟨hcounted, htext, hnumbers.trans (by decide), ?_⟩
  rw [← htext, hlex.2 (not_isBareNumber_of_isPlain (by decide))]
  decide

/-- The member of a number: its point is cut off with the number, and no token is the number
alone. -/
theorem member_of_one_fuses :
    IsCounted (.member (ofInt 1) "x") ∧ (member (ofInt 1) "x").text = "1.x" ∧
      (member (ofInt 1) "x").tokens = [.number "1", .punct ".", .word "x"] ∧
      lex "1.x".toList = some [.number "1.", .word "x"] := by
  have hnumber : lex ("1.".toList ++ "x".toList)
      = (lex "x".toList).map (.number "1." :: ·) := by
    refine lex_lexeme (by decide) fun d cs ds hrest => ?_
    obtain ⟨rfl, hnil⟩ := List.cons.inj hrest
    obtain ⟨rfl, -⟩ := List.append_eq_nil_iff.1 hnil.symm
    decide
  have hword : lex ("x".toList ++ []) = (lex []).map (.word "x" :: ·) :=
    lex_word (by decide) (by simp)
  refine ⟨.member (isCounted_ofInt 1) (by decide), by decide, by decide, ?_⟩
  show lex ("1.".toList ++ "x".toList) = _
  rw [hnumber, show "x".toList = "x".toList ++ [] from rfl, hword, lex_nil]
  rfl

end Shaderwright.Expr

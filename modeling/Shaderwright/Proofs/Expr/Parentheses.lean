import Shaderwright.Proofs.Expr.RoundTrip

/-!
# No parentheses to spare

Trees of names, operators, calls, members and indices are written with as few opening
parentheses as any text has that reads back as the tree (`count_text_le`). A parenthesis is
needed behind the name of a call, and around an operand that binds looser than its place allows.

The bound is a count over the derivation of the other text: each construct of the grammar offers
a place of some strength to its parts, and an expression that is too loose for its place can
only have come in by the rule for parentheses, which costs one (`openings_le`). Lexing keeps the
count, since no other lexeme holds a parenthesis.
-/

namespace Shaderwright

namespace Glsl

/-! ## Parentheses in texts and tokens -/

theorem isWordChar_of_isWord {w : List Char} (h : isWord w = true) :
    ∀ c ∈ w, isWordChar c = true := by
  cases w with
  | nil => simp
  | cons c cs =>
      obtain ⟨hc, hcs⟩ := Bool.and_eq_true_iff.1 h
      exact List.forall_mem_cons.2 ⟨isWordChar_of_isWordStart hc, List.all_eq_true.1 hcs⟩

theorem count_punctuator : ∀ p ∈ punctuators,
    [Token.punct p].count (.punct "(") = p.toList.count '(' := by
  decide

/-- A parenthesis stands in no lexeme but its own. -/
theorem count_tokenOf? {w : List Char} {t : Token} (h : tokenOf? w = some t) :
    [t].count (.punct "(") = w.count '(' := by
  rw [tokenOf?] at h
  split at h
  · next hword =>
      obtain rfl := Option.some.inj h
      have hnot : '(' ∉ w := fun hin => absurd (isWordChar_of_isWord hword _ hin) (by decide)
      rw [List.count_eq_zero.2 hnot]
      rfl
  · split at h
    · next hnumber =>
        obtain rfl := Option.some.inj h
        have hnot : '(' ∉ w := fun hin =>
          absurd (isNumberChar_of_isNumber hnumber _ hin) (by decide)
        rw [List.count_eq_zero.2 hnot]
        rfl
    · split at h
      · next hpunct =>
          obtain rfl := Option.some.inj h
          obtain ⟨p, hp, heq⟩ := List.any_eq_true.1 hpunct
          obtain rfl : p.toList = w := by simpa using heq
          rw [String.ofList_toList]
          exact count_punctuator p hp
      · cases h

/-- Lexing keeps the number of opening parentheses. -/
theorem count_lex {cs : List Char} {ts : List Token} (h : lex cs = some ts) :
    ts.count (.punct "(") = cs.count '(' := by
  fun_induction lex cs generalizing ts with
  | case1 =>
      obtain rfl := Option.some.inj h
      rfl
  | case2 c cs hblank ih =>
      have hc : c ≠ '(' := by
        rintro rfl
        exact absurd hblank (by decide)
      rw [ih h, List.count_cons_of_ne hc]
  | case3 => cases h
  | case4 => cases h
  | case5 c cs hblank w rest hmunch t ht ih =>
      obtain ⟨us, hus, rfl⟩ := Option.map_eq_some_iff.1 h
      obtain ⟨hcs, -, -⟩ := munch_sound hmunch
      rw [← hcs, List.count_append, ← ih hus, ← count_tokenOf? ht, ← List.count_append]
      rfl

end Glsl

namespace Expr

open Glsl

/-! ## Trees of names and what is applied to them -/

mutual

/-- Trees of names, binary operators, calls, members and indices. -/
def isApplied : Expr → Bool
  | .ident x => isIdentifier x
  | .binary _ l r => l.isApplied && r.isApplied
  | .call f args => isIdentifier f && areApplied args
  | .member base m => base.isApplied && isIdentifier m
  | .index base position => base.isApplied && position.isApplied
  | .literal _ | .raw _ | .unary _ _ | .assign _ _ _ => false

def areApplied : List Expr → Bool
  | [] => true
  | x :: xs => x.isApplied && areApplied xs

end

theorem areApplied_append (xs ys : List Expr) :
    areApplied (xs ++ ys) = (areApplied xs && areApplied ys) := by
  induction xs with
  | nil => rfl
  | cons x xs ih => simp [areApplied, ih, Bool.and_assoc]

theorem isBareNumber_of_isApplied {e : Expr} (h : e.isApplied = true) : e.isBareNumber = false := by
  cases e with
  | literal t => cases h
  | _ => rfl

mutual

theorem isPlain_of_isApplied : ∀ {e : Expr}, e.isApplied = true → e.isPlain = true
  | .literal t, h | .raw t, h | .unary op x, h | .assign op t v, h => by simp [isApplied] at h
  | .ident x, h => h
  | .binary op l r, h => by
      obtain ⟨hl, hr⟩ := Bool.and_eq_true_iff.1 h
      exact Bool.and_eq_true_iff.2 ⟨isPlain_of_isApplied hl, isPlain_of_isApplied hr⟩
  | .call f args, h => by
      obtain ⟨hf, hargs⟩ := Bool.and_eq_true_iff.1 h
      exact Bool.and_eq_true_iff.2 ⟨hf, arePlain_of_areApplied hargs⟩
  | .member base m, h => by
      obtain ⟨hbase, hm⟩ := Bool.and_eq_true_iff.1 h
      simp [isPlain, isPlain_of_isApplied hbase, isBareNumber_of_isApplied hbase, hm]
  | .index base position, h => by
      obtain ⟨hbase, hposition⟩ := Bool.and_eq_true_iff.1 h
      exact Bool.and_eq_true_iff.2 ⟨isPlain_of_isApplied hbase, isPlain_of_isApplied hposition⟩

theorem arePlain_of_areApplied : ∀ {args : List Expr}, areApplied args = true →
    arePlain args = true
  | [], _ => rfl
  | x :: xs, h => by
      obtain ⟨hx, hxs⟩ := Bool.and_eq_true_iff.1 h
      exact Bool.and_eq_true_iff.2 ⟨isPlain_of_isApplied hx, arePlain_of_areApplied hxs⟩

end

mutual

/-- Without literals there are no signs to be expanded. -/
theorem expandSigns_of_isApplied : ∀ {e : Expr}, e.isApplied = true → e.expandSigns = e
  | .literal t, h | .raw t, h | .unary op x, h | .assign op t v, h => by simp [isApplied] at h
  | .ident x, _ => rfl
  | .binary op l r, h => by
      obtain ⟨hl, hr⟩ := Bool.and_eq_true_iff.1 h
      rw [expandSigns, expandSigns_of_isApplied hl, expandSigns_of_isApplied hr]
  | .call f args, h => by
      rw [expandSigns, expandAll_of_areApplied (Bool.and_eq_true_iff.1 h).2]
  | .member base m, h => by
      rw [expandSigns, expandSigns_of_isApplied (Bool.and_eq_true_iff.1 h).1]
  | .index base position, h => by
      obtain ⟨hbase, hposition⟩ := Bool.and_eq_true_iff.1 h
      rw [expandSigns, expandSigns_of_isApplied hbase, expandSigns_of_isApplied hposition]

theorem expandAll_of_areApplied : ∀ {args : List Expr}, areApplied args = true →
    expandAll args = args
  | [], _ => rfl
  | x :: xs, h => by
      obtain ⟨hx, hxs⟩ := Bool.and_eq_true_iff.1 h
      rw [expandAll, expandSigns_of_isApplied hx, expandAll_of_areApplied hxs]

end

/-! ## Parentheses that are written -/

/-- The opening parentheses that an expression is written with at a place of some strength. -/
def openings (place : Nat) (e : Expr) : Nat :=
  (groupedTokens (e.strength < place) e.tokens).count (.punct "(")

theorem count_groupedTokens (needed : Bool) (ts : List Token) :
    (groupedTokens needed ts).count (.punct "(")
      = ts.count (.punct "(") + if needed then 1 else 0 := by
  cases needed with
  | false => rfl
  | true => simp [groupedTokens]

theorem openings_eq (place : Nat) (e : Expr) :
    openings place e = e.tokens.count (.punct "(") + if e.strength < place then 1 else 0 := by
  rw [openings, count_groupedTokens]
  simp

theorem openings_of_le {place : Nat} {e : Expr} (h : place ≤ e.strength) :
    openings place e = e.tokens.count (.punct "(") := by
  rw [openings_eq, if_neg (Nat.not_lt.2 h), Nat.add_zero]

/-- A place that asks for less costs no more. -/
theorem openings_le_of_le {place tighter count : Nat} {e : Expr} (h : place ≤ tighter)
    (hcount : openings tighter e ≤ count) : openings place e ≤ count := by
  rw [openings_eq] at hcount ⊢
  split at hcount <;> split <;> omega

/-- Parentheses around an expression are enough at any place. -/
theorem openings_le_succ (place : Nat) (e : Expr) : openings place e ≤ openings 0 e + 1 := by
  rw [openings_eq, openings_eq]
  split <;> split <;> omega

theorem openings_binary {place : Nat} {op : BinaryOp} (l r : Expr) (h : place ≤ op.strength) :
    openings place (.binary op l r) = openings op.strength l + openings (op.strength + 1) r := by
  have hsymbol : Token.punct op.symbol ≠ .punct "(" := by cases op <;> decide
  rw [openings_of_le h, tokens, List.count_append, List.count_cons_of_ne hsymbol]
  rfl

theorem openings_member {place : Nat} (base : Expr) (m : String) (h : place ≤ postfixStrength) :
    openings place (.member base m) = openings postfixStrength base := by
  rw [openings_of_le h, tokens, List.count_append]
  rfl

theorem openings_index {place : Nat} (base position : Expr) (h : place ≤ postfixStrength) :
    openings place (.index base position)
      = openings postfixStrength base + openings 0 position := by
  rw [openings_of_le h, tokens, openings_of_le (Nat.zero_le _), openings]
  simp

/-- A further argument costs what it is written with, wherever it stands. -/
theorem count_argTokens_append (args : List Expr) (e : Expr) :
    (argTokens (args ++ [e])).count (.punct "(")
      = (argTokens args).count (.punct "(") + openings 0 e := by
  rw [openings_of_le (Nat.zero_le _)]
  induction args with
  | nil => simp [argTokens]
  | cons x xs ih =>
      cases xs with
      | nil => simp [argTokens]
      | cons y ys =>
          simp only [List.cons_append, argTokens, List.count_append, List.count_cons] at ih ⊢
          omega

theorem openings_call {place : Nat} (f : String) (args : List Expr) (h : place ≤ atomStrength) :
    openings place (.call f args) = (argTokens args).count (.punct "(") + 1 := by
  rw [openings_of_le h, tokens]
  simp

/-! ## Parentheses that are needed -/

/-- How tightly an expression of the kind binds at least, unless it stands in parentheses. -/
def placeOf : Nonterminal → Nat
  | .primary | .arguments => atomStrength
  | .suffixed => postfixStrength
  | .unary => unaryStrength
  | .binary bound => unaryStrength - bound
  | .assignment => 0

/-- Levels are counted from the tightest, strengths from the loosest. -/
theorem strength_add_of_binaryOp? {s : String} {k : Nat} {op : BinaryOp}
    (h : binaryOp? s = some (k, op)) : op.strength + k = 10 := by
  unfold binaryOp? at h
  split at h <;> cases h <;> rfl

/-- **What is written is needed.** Tokens of which an expression is derived hold no fewer opening
parentheses than it is written with at the place that its kind stands for. -/
theorem openings_le {n : Nonterminal} {ts : List Token} {e : Expr} (h : Derives n ts e)
    (he : e.isApplied = true) : openings (placeOf n) e ≤ ts.count (.punct "(") := by
  induction h with
  | name hx => exact Nat.zero_le _
  | constant hx => cases he
  | number => cases he
  | @group ts e _ ih =>
      have hinner : openings 0 e ≤ ts.count (.punct "(") := ih he
      have houter := openings_le_succ (placeOf .primary) e
      simp only [List.cons_append, List.count_cons_self, List.count_append]
      omega
  | ofPrimary _ ih => exact openings_le_of_le (by decide) (ih he)
  | @member ts e m _ hm ih =>
      have hbase : openings postfixStrength e ≤ ts.count (.punct "(") :=
        ih (Bool.and_eq_true_iff.1 he).1
      rw [openings_member e m (Nat.le_refl (placeOf .suffixed)), List.count_append]
      omega
  | @index ts us e i _ _ ihe ihi =>
      obtain ⟨hbase, hposition⟩ := Bool.and_eq_true_iff.1 he
      have hleft : openings postfixStrength e ≤ ts.count (.punct "(") := ihe hbase
      have hinner : openings 0 i ≤ us.count (.punct "(") := ihi hposition
      rw [openings_index e i (Nat.le_refl (placeOf .suffixed))]
      simp only [List.append_assoc, List.cons_append, List.count_append, List.count_cons]
      omega
  | @callEmpty f hf =>
      have hplace : placeOf .suffixed ≤ atomStrength := by decide
      rw [openings_call f [] hplace]
      simp [argTokens]
  | @call ts e _ ih =>
      have hall : openings (placeOf .suffixed) e ≤ ts.count (.punct "(") :=
        openings_le_of_le (by decide) (ih he)
      rw [List.count_append]
      exact Nat.le_add_right_of_le hall
  | @firstArgument f ts e hf _ ih =>
      have hargs : areApplied [e] = true := (Bool.and_eq_true_iff.1 he).2
      have hfirst : openings 0 e ≤ ts.count (.punct "(") := ih (Bool.and_eq_true_iff.1 hargs).1
      rw [openings_call f [e] (Nat.le_refl (placeOf .arguments)), ← List.nil_append [e],
        count_argTokens_append]
      simpa [argTokens] using hfirst
  | @nextArgument f ts us args e _ _ ihf ihe =>
      obtain ⟨hf, hall⟩ := Bool.and_eq_true_iff.1 he
      rw [areApplied_append, Bool.and_eq_true] at hall
      have hbefore : openings atomStrength (.call f args) ≤ ts.count (.punct "(") :=
        ihf (Bool.and_eq_true_iff.2 ⟨hf, hall.1⟩)
      have hlast : openings 0 e ≤ us.count (.punct "(") := ihe (Bool.and_eq_true_iff.1 hall.2).1
      rw [openings_call f args (Nat.le_refl _)] at hbefore
      rw [openings_call f (args ++ [e]) (Nat.le_refl (placeOf .arguments)),
        count_argTokens_append, List.count_append, List.count_cons]
      omega
  | ofSuffixed _ ih => exact openings_le_of_le (by decide) (ih he)
  | sign hop _ ih => cases he
  | ofUnary _ ih => exact ih he
  | @ofTighter k ts e _ ih =>
      exact openings_le_of_le (Nat.sub_le_sub_left (Nat.le_succ k) unaryStrength) (ih he)
  | @operation s k op ts us l r hop _ _ ihl ihr =>
      obtain ⟨hl, hr⟩ := Bool.and_eq_true_iff.1 he
      -- The operators of a level are exactly as strong as the place of their left operand, and
      -- the right operand has to bind tighter.
      have hlevel : unaryStrength - (k + 1) = op.strength ∧
          unaryStrength - k = op.strength + 1 := by
        have hsum := strength_add_of_binaryOp? hop
        simp only [unaryStrength]
        omega
      have hleft : openings op.strength l ≤ ts.count (.punct "(") := hlevel.1 ▸ ihl hl
      have hright : openings (op.strength + 1) r ≤ us.count (.punct "(") := hlevel.2 ▸ ihr hr
      have hplace : placeOf (.binary (k + 1)) ≤ op.strength := Nat.le_of_eq hlevel.1
      rw [openings_binary l r hplace]
      simp only [List.count_append, List.count_cons]
      omega
  | ofBinary _ ih => exact openings_le_of_le (Nat.zero_le _) (ih he)
  | assign hop _ _ iht ihv => cases he

/-- **No parentheses to spare.** The text of a tree of names, operators, calls, members and
indices reads back as the tree, and no text that does has fewer opening parentheses. -/
theorem count_text_le {e : Expr} (h : e.isApplied = true) :
    Parses e.text e ∧
      ∀ source, Parses source e → e.text.toList.count '(' ≤ source.toList.count '(' := by
  have hplain := isPlain_of_isApplied h
  have hlex : lex e.text.toList = some e.tokens := by
    simpa using lex_text hplain [] (fun c hc => by simp at hc)
  have hderives : Derives .assignment e.tokens e := by
    have htree := derives_assignment (derives_tokens hplain)
    rwa [expandSigns_of_isApplied h] at htree
  refine ⟨⟨e.tokens, hlex, hderives⟩, ?_⟩
  rintro source ⟨ts, hts, hsource⟩
  calc e.text.toList.count '(' = e.tokens.count (.punct "(") := (count_lex hlex).symm
    _ = openings 0 e := (openings_of_le (Nat.zero_le _)).symm
    _ ≤ ts.count (.punct "(") := openings_le hsource h
    _ = source.toList.count '(' := count_lex hts

/-- A product of a grouped sum and a call, with operators on both sides of a difference, indexed
and with a member of a grouped product. -/
def crowded : Expr :=
  .binary .mul (.binary .add (.ident "a") (.ident "b"))
    (.member (.binary .div
      (.call "f" [.binary .sub (.ident "c") (.binary .sub (.ident "d") (.ident "a"))])
      (.index (.ident "w") (.binary .shl (.ident "i") (.ident "j")))) "xyz")

theorem count_text_le_crowded :
    crowded.isApplied = true ∧ crowded.text = "(a + b) * (f(c - (d - a)) / w[i << j]).xyz" ∧
      Parses "(a + b) * (f(c - (d - a)) / w[i << j]).xyz" crowded ∧
      ∀ source, Parses source crowded → 4 ≤ source.toList.count '(' := by
  have htext : crowded.text = "(a + b) * (f(c - (d - a)) / w[i << j]).xyz" := by decide
  have happlied : crowded.isApplied = true := by decide
  obtain ⟨hparses, hfewest⟩ := count_text_le happlied
  rw [htext] at hparses hfewest
  exact ⟨happlied, htext, hparses, hfewest⟩

end Expr

end Shaderwright

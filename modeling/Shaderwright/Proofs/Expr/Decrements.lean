import Shaderwright.Proofs.Expr.RoundTrip

/-!
# Signs that do not meet

Two minus signs in a row would be read as a decrement. Literals and raw text may hold anything
else, and may begin and end with a minus sign: if no piece that a tree is written with has two of
them in a row, and no variable or function has a name that begins with one, then the text of the
tree has none either (`contains_decrement_text`).

What stands between two pieces is a character other than the minus sign, but for a sign and its
operand. So two statements are carried along the tree together: no two minus signs stand in a row,
and an expression that binds more tightly than a sign does not begin with one (`apart_text`).
-/

namespace Shaderwright.Expr

/-! ## Two minus signs in a row -/

def hasDecrement (cs : List Char) : Bool := Text.occursIn ['-', '-'] cs

theorem hasDecrement_cons (c : Char) (cs : List Char) :
    hasDecrement (c :: cs) = (c == '-' && cs.head? == some '-' || hasDecrement cs) := by
  rw [hasDecrement, Text.occursIn, ← hasDecrement]
  cases cs with
  | nil => simp [List.isPrefixOf]
  | cons d ds => simp [List.isPrefixOf, BEq.comm]

theorem hasDecrement_nil : hasDecrement [] = false := rfl

/-- Across any other character no two minus signs come together. -/
theorem hasDecrement_append_cons {c : Char} (hc : c ≠ '-') (as bs : List Char) :
    hasDecrement (as ++ c :: bs) = (hasDecrement as || hasDecrement bs) := by
  induction as with
  | nil => rw [List.nil_append, hasDecrement_cons, hasDecrement_nil]; simp [hc]
  | cons a as ih =>
      rw [List.cons_append, hasDecrement_cons, hasDecrement_cons, ih, Bool.or_assoc]
      cases as with
      | nil => simp [hc]
      | cons d ds => rfl

theorem hasDecrement_between {c : Char} (hc : c ≠ '-') {as bs : List Char}
    (ha : hasDecrement as = false) (hb : hasDecrement bs = false) :
    hasDecrement (as ++ c :: bs) = false := by
  rw [hasDecrement_append_cons hc, ha, hb]
  rfl

theorem hasDecrement_after {c : Char} (hc : c ≠ '-') {bs : List Char}
    (hb : hasDecrement bs = false) : hasDecrement (c :: bs) = false :=
  hasDecrement_between hc hasDecrement_nil hb

/-! ## The pieces of a tree -/

mutual

/-- The texts that an expression is written with: those of its atoms, and the names of its
members and calls. -/
def pieces : Expr → List String
  | .literal t | .raw t | .ident t => [t]
  | .unary _ x => x.pieces
  | .binary _ l r => l.pieces ++ r.pieces
  | .call f args => f :: argPieces args
  | .member base m => base.pieces ++ [m]
  | .index base position => base.pieces ++ position.pieces
  | .assign _ target value => target.pieces ++ value.pieces

def argPieces : List Expr → List String
  | [] => []
  | x :: xs => x.pieces ++ argPieces xs

end

mutual

/-- The names of variables and functions in an expression. -/
def leadNames : Expr → List String
  | .literal _ | .raw _ => []
  | .ident x => [x]
  | .unary _ x => x.leadNames
  | .binary _ l r => l.leadNames ++ r.leadNames
  | .call f args => f :: argLeadNames args
  | .member base _ => base.leadNames
  | .index base position => base.leadNames ++ position.leadNames
  | .assign _ target value => target.leadNames ++ value.leadNames

def argLeadNames : List Expr → List String
  | [] => []
  | x :: xs => x.leadNames ++ argLeadNames xs

end

/-! ## Texts whose signs stand apart -/

/-- No two minus signs stand in a row, and what binds more tightly than a sign does not begin with
a minus sign. -/
structure Apart (e : Expr) : Prop where
  single : hasDecrement e.text.toList = false
  head : postfixStrength ≤ e.strength → e.text.toList.head? ≠ some '-'

theorem apart_of_loose {e : Expr} (h : hasDecrement e.text.toList = false)
    (hstrength : e.strength < postfixStrength) : e.Apart :=
  ⟨h, fun hle => absurd hle (Nat.not_le.2 hstrength)⟩

theorem hasDecrement_grouped {t : String} (h : hasDecrement t.toList = false) (needed : Bool) :
    hasDecrement (grouped needed t).toList = false := by
  cases needed with
  | false => exact h
  | true =>
      have hclosed : hasDecrement (t.toList ++ ')' :: []) = false :=
        hasDecrement_between (by decide) h rfl
      simpa [grouped, String.toList_append] using
        hasDecrement_after (by decide : '(' ≠ '-') hclosed

/-- The base of a member or an index does not begin with a minus sign, whatever it is. -/
theorem Apart.head_base {x : Expr} (h : x.Apart) {rest : List Char}
    (hrest : rest.head? ≠ some '-') :
    ((grouped (x.strength < postfixStrength) x.text).toList ++ rest).head? ≠ some '-' := by
  cases hneeded : decide (x.strength < postfixStrength) with
  | true => simp [grouped, String.toList_append]
  | false =>
      have hhead := h.head (by simpa using hneeded)
      rw [grouped, if_neg Bool.false_ne_true]
      cases htext : x.text.toList with
      | nil => exact hrest
      | cons c cs => rwa [htext] at hhead

theorem isSigned_of_head {t : String} (h : t.toList.head? = some '-') : isSigned t = true := by
  cases ht : t.toList with
  | nil => rw [ht] at h; cases h
  | cons c cs =>
      rw [ht] at h
      obtain rfl := Option.some.inj h
      exact isSigned_of_minus ht

theorem apart_literal {t : String} (h : hasDecrement t.toList = false) : (literal t).Apart := by
  refine ⟨by rwa [text], fun hstrength hhead => ?_⟩
  rw [text] at hhead
  rw [strength, if_pos (isSigned_of_head hhead)] at hstrength
  exact absurd hstrength (by decide)

/-- Under a sign an operand stands in parentheses or does not begin with a minus sign. -/
theorem apart_unary {op : UnaryOp} {x : Expr} (hx : x.Apart) : (unary op x).Apart := by
  refine apart_of_loose ?_ (by simp [strength, unaryStrength, postfixStrength])
  have hoperand :=
    hasDecrement_grouped hx.single (x.leadsWithSign || x.strength < unaryStrength)
  have hhead : (grouped (x.leadsWithSign || x.strength < unaryStrength) x.text).toList.head?
      ≠ some '-' := by
    cases hneeded : (x.leadsWithSign || decide (x.strength < unaryStrength)) with
    | true => simp [grouped, String.toList_append]
    | false =>
        obtain ⟨hsign, hstrength⟩ := Bool.or_eq_false_iff.1 hneeded
        exact hx.head (postfixStrength_le_of_unsigned hsign (by simpa using hstrength))
  cases op with
  | neg =>
      rw [text, String.toList_append]
      show hasDecrement
        ('-' :: (grouped (x.leadsWithSign || x.strength < unaryStrength) x.text).toList) = false
      rw [hasDecrement_cons, hoperand]
      simpa using hhead
  | not =>
      rw [text, String.toList_append]
      exact hasDecrement_after (by decide : '!' ≠ '-') hoperand

/-- An operator between blanks keeps its operands apart. -/
theorem hasDecrement_spaced {left s right : String} (hl : hasDecrement left.toList = false)
    (hs : hasDecrement s.toList = false) (hr : hasDecrement right.toList = false) :
    hasDecrement (left ++ " " ++ s ++ " " ++ right).toList = false := by
  have hright : hasDecrement (s.toList ++ ' ' :: right.toList) = false :=
    hasDecrement_between (by decide) hs hr
  simpa [String.toList_append] using hasDecrement_between (c := ' ') (by decide) hl hright

theorem apart_binary {op : BinaryOp} {l r : Expr} (hl : l.Apart) (hr : r.Apart) :
    (binary op l r).Apart := by
  have hsymbol : hasDecrement op.symbol.toList = false := by cases op <;> decide
  refine apart_of_loose ?_ (by cases op <;> simp [strength, BinaryOp.strength, postfixStrength])
  rw [text]
  exact hasDecrement_spaced (hasDecrement_grouped hl.single _) hsymbol
    (hasDecrement_grouped hr.single _)

theorem apart_assign {op : AssignOp} {t v : Expr} (ht : t.Apart) (hv : v.Apart) :
    (assign op t v).Apart := by
  have hsymbol : hasDecrement op.symbol.toList = false := by cases op <;> decide
  refine apart_of_loose ?_ (by simp [strength, assignStrength, postfixStrength])
  rw [text]
  exact hasDecrement_spaced (hasDecrement_grouped ht.single _) hsymbol
    (hasDecrement_grouped hv.single _)

theorem apart_member {base : Expr} {m : String} (hbase : base.Apart)
    (hm : hasDecrement m.toList = false) : (member base m).Apart := by
  have htext : (member base m).text.toList
      = (grouped (base.strength < postfixStrength) base.text).toList ++ '.' :: m.toList := by
    simp [text, String.toList_append]
  constructor
  · rw [htext]
    exact hasDecrement_between (by decide) (hasDecrement_grouped hbase.single _) hm
  · rw [htext]
    exact fun _ => hbase.head_base (by simp)

theorem apart_index {base position : Expr} (hbase : base.Apart) (hposition : position.Apart) :
    (index base position).Apart := by
  have htext : (index base position).text.toList
      = (grouped (base.strength < postfixStrength) base.text).toList
        ++ '[' :: (position.text.toList ++ ']' :: []) := by
    simp [text, String.toList_append]
  constructor
  · rw [htext]
    exact hasDecrement_between (by decide) (hasDecrement_grouped hbase.single _)
      (hasDecrement_between (by decide) hposition.single rfl)
  · rw [htext]
    exact fun _ => hbase.head_base (by simp)

theorem hasDecrement_argTexts {args : List Expr} (h : ∀ x ∈ args, x.Apart) :
    hasDecrement (Text.join ", " (argTexts args)).toList = false := by
  induction args with
  | nil => rfl
  | cons x xs ih =>
      obtain ⟨hx, hxs⟩ := List.forall_mem_cons.1 h
      cases xs with
      | nil => exact hx.single
      | cons y ys =>
          have hrest : hasDecrement (' ' :: (Text.join ", " (argTexts (y :: ys))).toList)
              = false := hasDecrement_after (by decide) (ih hxs)
          simpa [argTexts, Text.join, String.toList_append] using
            hasDecrement_between (c := ',') (by decide) hx.single hrest

theorem apart_call {f : String} {args : List Expr} (hf : hasDecrement f.toList = false)
    (hname : f.toList.head? ≠ some '-') (hargs : ∀ x ∈ args, x.Apart) : (call f args).Apart := by
  have htext : (call f args).text.toList
      = f.toList ++ '(' :: ((Text.join ", " (argTexts args)).toList ++ ')' :: []) := by
    simp [text, String.toList_append]
  constructor
  · rw [htext]
    exact hasDecrement_between (by decide) hf
      (hasDecrement_between (by decide) (hasDecrement_argTexts hargs) rfl)
  · rw [htext]
    intro _
    cases hcs : f.toList with
    | nil => simp
    | cons c cs => rwa [hcs] at hname

mutual

/-- **Signs stand apart.** By induction over the tree. -/
theorem apart_text : ∀ {e : Expr}, (∀ t ∈ e.pieces, hasDecrement t.toList = false) →
    (∀ x ∈ e.leadNames, x.toList.head? ≠ some '-') → e.Apart
  | .literal t, hpieces, _ => apart_literal (hpieces t List.mem_cons_self)
  | .raw t, hpieces, _ =>
      apart_of_loose (by rw [text]; exact hpieces t List.mem_cons_self)
        (by simp [strength, postfixStrength])
  | .ident x, hpieces, hnames =>
      ⟨by rw [text]; exact hpieces x List.mem_cons_self,
        fun _ => by rw [text]; exact hnames x List.mem_cons_self⟩
  | .unary op x, hpieces, hnames => apart_unary (apart_text hpieces hnames)
  | .binary op l r, hpieces, hnames => by
      rw [pieces, List.forall_mem_append] at hpieces
      rw [leadNames, List.forall_mem_append] at hnames
      exact apart_binary (apart_text hpieces.1 hnames.1) (apart_text hpieces.2 hnames.2)
  | .call f args, hpieces, hnames => by
      rw [pieces, List.forall_mem_cons] at hpieces
      rw [leadNames, List.forall_mem_cons] at hnames
      exact apart_call hpieces.1 hnames.1 (apart_argTexts hpieces.2 hnames.2)
  | .member base m, hpieces, hnames => by
      rw [pieces, List.forall_mem_append] at hpieces
      exact apart_member (apart_text hpieces.1 hnames) (hpieces.2 m List.mem_cons_self)
  | .index base position, hpieces, hnames => by
      rw [pieces, List.forall_mem_append] at hpieces
      rw [leadNames, List.forall_mem_append] at hnames
      exact apart_index (apart_text hpieces.1 hnames.1) (apart_text hpieces.2 hnames.2)
  | .assign op t v, hpieces, hnames => by
      rw [pieces, List.forall_mem_append] at hpieces
      rw [leadNames, List.forall_mem_append] at hnames
      exact apart_assign (apart_text hpieces.1 hnames.1) (apart_text hpieces.2 hnames.2)

theorem apart_argTexts : ∀ {args : List Expr},
    (∀ t ∈ argPieces args, hasDecrement t.toList = false) →
    (∀ x ∈ argLeadNames args, x.toList.head? ≠ some '-') → ∀ x ∈ args, x.Apart
  | [], _, _ => by simp
  | x :: xs, hpieces, hnames => by
      rw [argPieces, List.forall_mem_append] at hpieces
      rw [argLeadNames, List.forall_mem_append] at hnames
      exact List.forall_mem_cons.2 ⟨apart_text hpieces.1 hnames.1,
        apart_argTexts hpieces.2 hnames.2⟩

end

/-- **No decrement is written.** If no piece of a tree holds two minus signs in a row, and no name
of a variable or a function begins with a minus sign, then its text holds no two in a row. -/
theorem contains_decrement_text (e : Expr)
    (hpieces : ∀ t ∈ e.pieces, Text.contains t "--" = false)
    (hnames : ∀ x ∈ e.leadNames, x.toList.head? ≠ some '-') :
    Text.contains e.text "--" = false :=
  (apart_text hpieces hnames).single

/-- A compound subtraction of raw text that ends with a minus sign, and of a literal with signs
upon signs. -/
def signed : Expr :=
  .assign .sub (.index (.ident "w") (.literal "-"))
    (.binary .sub (.raw "b -") (.unary .neg (.unary .neg (.literal "-1"))))

theorem contains_decrement_text_signed :
    signed.text = "w[-] -= (b -) - -(-(-1))" ∧
      (∀ t ∈ signed.pieces, Text.contains t "--" = false) ∧
      (∀ x ∈ signed.leadNames, x.toList.head? ≠ some '-') ∧
      Text.contains "w[-] -= (b -) - -(-(-1))" "--" = false := by
  have htext : signed.text = "w[-] -= (b -) - -(-(-1))" := by decide
  have hpieces : ∀ t ∈ signed.pieces, Text.contains t "--" = false := by decide
  have hnames : ∀ x ∈ signed.leadNames, x.toList.head? ≠ some '-' := by decide
  exact ⟨htext, hpieces, hnames, htext ▸ contains_decrement_text signed hpieces hnames⟩

end Shaderwright.Expr

import Shaderwright.Proofs.Expr.Grouping
import Shaderwright.Proofs.Expr.RoundTrip

/-!
# Operators around text

An expression may be put together from texts that come from elsewhere. Whatever such a text holds,
it takes part in the expression as a whole: of the binary operators that stand in the text of an
operation with a blank on either side, outside of brackets, the last one of those that bind
loosest is the operator of the operation, and before and after it stand its two operands
(`isMain_iff_of_isPart`).

An operator that is found at such a place lies in the left operand, in the right one, or is the
operator itself (`Occurrence.In.cases`). It cannot be made up of pieces of two of them, since the
text of an operand neither begins nor ends like an operator (`Edged`).
-/

namespace Shaderwright.Expr

open Glsl

/-! ## Operators outside of brackets -/

/-- A binary operator in a text, with the texts before and after it. -/
structure Occurrence where
  before : List Char
  op : BinaryOp
  after : List Char

/-- The operator stands in the text with a blank on either side, outside of brackets. -/
def Occurrence.In (o : Occurrence) (cs : List Char) : Prop :=
  isBalanced o.before = true ∧ cs = o.before ++ ' ' :: (o.op.symbol.toList ++ ' ' :: o.after)

/-- The level of the operator in the grammar; the looser it binds, the higher. -/
def Occurrence.level (o : Occurrence) : Nat := ((binaryOp? o.op.symbol).map Prod.fst).getD 0

/-- The last one of the operators that bind loosest. -/
def Occurrence.IsMain (o : Occurrence) (cs : List Char) : Prop :=
  o.In cs ∧ ∀ p : Occurrence, p.In cs →
    p.level < o.level ∨ (p.level = o.level ∧ p.before.length ≤ o.before.length)

theorem Occurrence.level_eq (o : Occurrence) : o.level = 10 - o.op.strength := by
  rw [level, (binaryOp?_symbol o.op).1]
  rfl

theorem blank_not_mem_symbol (op : BinaryOp) : ' ' ∉ op.symbol.toList := by cases op <;> decide

theorem symbol_injective {op op' : BinaryOp} (h : op.symbol = op'.symbol) : op = op' := by
  have hop := (binaryOp?_symbol op).1
  rw [h, (binaryOp?_symbol op').1] at hop
  exact (Prod.mk.inj (Option.some.inj hop)).2.symm

/-- A text without blanks is cut off at the first blank behind it. -/
theorem split_blank {s as bs cs : List Char} (hs : ' ' ∉ s)
    (h : s ++ ' ' :: as = bs ++ ' ' :: cs) :
    (bs = s ∧ as = cs) ∨ ∃ z, bs = s ++ ' ' :: z ∧ as = z ++ ' ' :: cs := by
  rcases List.append_eq_append_iff.1 h with ⟨w, rfl, hw⟩ | ⟨w, rfl, hw⟩
  · cases w with
    | nil => exact .inl ⟨List.append_nil s, (List.cons.inj hw).2⟩
    | cons c w =>
        obtain ⟨rfl, hrest⟩ := List.cons.inj hw
        exact .inr ⟨w, rfl, hrest⟩
  · cases w with
    | nil => exact .inl ⟨(List.append_nil bs).symm, (List.cons.inj hw).2.symm⟩
    | cons c w =>
        obtain ⟨rfl, -⟩ := List.cons.inj hw
        exact absurd (List.mem_append_right bs List.mem_cons_self) hs

/-- Two operators that stand at the same place are the same. -/
theorem symbol_append_inj {op op' : BinaryOp} {as bs : List Char}
    (h : op.symbol.toList ++ ' ' :: as = op'.symbol.toList ++ ' ' :: bs) : op = op' ∧ as = bs := by
  rcases split_blank (blank_not_mem_symbol op) h with ⟨hsymbol, hrest⟩ | ⟨z, hsymbol, -⟩
  · exact ⟨symbol_injective (String.toList_inj.1 hsymbol.symm), hrest⟩
  · exact absurd (hsymbol ▸ by simp) (blank_not_mem_symbol op')

/-- An operator is known from the text before it. -/
theorem Occurrence.In.eq {p q : Occurrence} {cs : List Char} (hp : p.In cs) (hq : q.In cs)
    (hlength : p.before.length = q.before.length) : p = q := by
  obtain ⟨before, op, after⟩ := p
  obtain ⟨before', op', after'⟩ := q
  obtain ⟨rfl, hrest⟩ := List.append_inj (hp.2.symm.trans hq.2) hlength
  obtain ⟨rfl, rfl⟩ := symbol_append_inj (List.cons.inj hrest).2
  rfl

theorem Occurrence.IsMain.eq {p q : Occurrence} {cs : List Char} (hp : p.IsMain cs)
    (hq : q.IsMain cs) : p = q := by
  have hpq := hq.2 p hp.1
  have hqp := hp.2 q hq.1
  exact hp.1.eq hq.1 (by omega)

/-- Where an operator stands, a blank stands outside of brackets. -/
theorem Occurrence.In.blank_mem {o : Occurrence} {cs : List Char} (h : o.In cs) :
    ' ' ∈ outer 0 cs := by
  rw [h.2]
  exact mem_outer h.1 (by decide)

/-! ## The edges of an operand -/

/-- The text begins with at most one sign and an operand character or a bracket behind it, and
ends with an operand character or a bracket. -/
structure Edged (cs : List Char) : Prop where
  first : ∃ c rest, unsignedText cs = c :: rest ∧ (isOpening c || isOperandChar c) = true
  last : ∃ c ∈ cs.getLast?, (isClosing c || isOperandChar c) = true

theorem Edged.ne_symbol_append {cs : List Char} (h : Edged cs) (op : BinaryOp) (rest : List Char) :
    cs ≠ op.symbol.toList ++ ' ' :: rest := by
  rintro rfl
  obtain ⟨c, rest', hbody, hc⟩ := h.first
  cases op <;>
    (obtain ⟨rfl, -⟩ := List.cons.inj hbody
     exact absurd hc (by decide))

theorem Edged.ne_append_symbol {cs : List Char} (h : Edged cs) (front : List Char)
    (op : BinaryOp) : cs ≠ front ++ op.symbol.toList := by
  rintro rfl
  obtain ⟨c, hlast, hc⟩ := h.last
  rw [List.getLast?_append] at hlast
  cases op <;>
    (obtain rfl := Option.some.inj hlast
     exact absurd hc (by decide))

theorem isBalanced_spaced {left : List Char} (h : isBalanced left = true) (op : BinaryOp) :
    isBalanced (left ++ ' ' :: (op.symbol.toList ++ [' '])) = true := by
  have hblank : isBalanced [' '] = true := rfl
  have hsymbol : isBalanced ([' '] ++ (op.symbol.toList ++ [' '])) = true :=
    isBalanced_append hblank (isBalanced_append (isSingle_symbol_of_binary op).1 hblank)
  exact isBalanced_append h hsymbol

/-- An operator in an operation stands in the left operand, in the right one, or between them. -/
theorem Occurrence.In.cases {p : Occurrence} {op : BinaryOp} {left right : List Char}
    (hleft : Edged left) (hright : Edged right) (hbalanced : isBalanced left = true)
    (h : p.In (left ++ ' ' :: (op.symbol.toList ++ ' ' :: right))) :
    (∃ rest, (Occurrence.mk p.before p.op rest).In left) ∨ p = ⟨left, op, right⟩ ∨
      ∃ front, p.before = left ++ ' ' :: (op.symbol.toList ++ ' ' :: front) ∧
        (Occurrence.mk front p.op p.after).In right := by
  obtain ⟨before, op', after⟩ := p
  obtain ⟨hbefore, htext⟩ := h
  dsimp only at hbefore htext ⊢
  have hblank := blank_not_mem_symbol op
  have hblank' := blank_not_mem_symbol op'
  rcases List.append_eq_append_iff.1 htext with ⟨x, rfl, hx⟩ | ⟨x, rfl, hx⟩
  -- The operator begins behind the left operand,
  · cases x with
    | nil =>
        obtain ⟨rfl, rfl⟩ := symbol_append_inj (List.cons.inj hx).2
        rw [List.append_nil]
        exact .inr (.inl rfl)
    | cons c y =>
        obtain ⟨rfl, hy⟩ := List.cons.inj hx
        rcases split_blank hblank hy with ⟨rfl, hright'⟩ | ⟨z, rfl, hright'⟩
        · exact absurd hright' (hright.ne_symbol_append op' after)
        · have hz : isBalanced z = true := by
            have hfront : left ++ ' ' :: (op.symbol.toList ++ ' ' :: z)
                = left ++ ' ' :: (op.symbol.toList ++ [' ']) ++ z := by simp
            rwa [hfront, isBalanced_iff, depthAfter_balanced (isBalanced_spaced hbalanced op),
              ← isBalanced_iff] at hbefore
          exact .inr (.inr ⟨z, rfl, hz, hright'⟩)
  -- or inside of it.
  · cases x with
    | nil =>
        obtain ⟨rfl, rfl⟩ := symbol_append_inj (List.cons.inj hx).2
        rw [List.append_nil]
        exact .inr (.inl rfl)
    | cons c y =>
        obtain ⟨rfl, hy⟩ := List.cons.inj hx
        rcases split_blank hblank' hy with ⟨rfl, -⟩ | ⟨z, rfl, -⟩
        · exact absurd (by simp) (hleft.ne_append_symbol (before ++ [' ']) op')
        · exact .inl ⟨z, hbefore, rfl⟩

/-! ## Trees of texts -/

/-- Trees of signs and binary operators over given texts. -/
inductive FromTexts : Expr → Prop where
  | leaf {t : String} : t ≠ "" → isBalanced t.toList = true → FromTexts (ofText t)
  | unary {op : UnaryOp} {x : Expr} : FromTexts x → FromTexts (.unary op x)
  | binary {op : BinaryOp} {l r : Expr} : FromTexts l → FromTexts r → FromTexts (.binary op l r)

/-- A text that is not empty becomes a literal if it is one operand, and raw text otherwise. -/
theorem ofText_cases {t : String} (h : t ≠ "") :
    (ofText t = .literal t ∧ isOperand t.toList = true) ∨ ofText t = .raw t := by
  rw [ofText]
  split
  · next hoperand => exact .inl ⟨rfl, hoperand.resolve_left h⟩
  · exact .inr rfl

theorem FromTexts.of_fill (g : Gap) (x : Expr) (h : FromTexts (g.fill x)) : FromTexts x := by
  generalize hfill : g.fill x = e at h
  cases h with
  | leaf hne _ =>
      rcases ofText_cases hne with ⟨htext, -⟩ | htext <;>
        (rw [htext] at hfill; cases g <;> cases hfill)
  | unary hx => cases g <;> cases hfill; exact hx
  | binary hl hr =>
      cases g <;> cases hfill
      · exact hl
      · exact hr

theorem FromTexts.isFormed {e : Expr} (h : FromTexts e) : e.isFormed = true := by
  induction h with
  | @leaf t hne hbalanced =>
      rcases ofText_cases hne with ⟨htext, hoperand⟩ | htext <;> rw [htext]
      · exact hoperand
      · exact hbalanced
  | unary _ ih => exact ih
  | binary _ _ ihl ihr => exact Bool.and_eq_true_iff.2 ⟨ihl, ihr⟩

/-! ## The edges of texts -/

theorem edged_of_isOperand {cs : List Char} (h : isOperand cs = true) : Edged cs := by
  refine ⟨head_of_isOperand h, ?_⟩
  obtain ⟨hne, hscan⟩ := scan_of_isOperand h
  obtain ⟨hdepth, houter⟩ := depthAfter_of_scan hscan
  obtain ⟨front, c, hbody⟩ := (List.eq_nil_or_concat (unsignedText cs)).resolve_left hne
  have hlast : cs.getLast? = some c := by
    rcases unsignedText_cases cs with hself | ⟨s, -, hcs⟩
    · rw [← hself, hbody]
      simp
    · rw [hcs, hbody, List.concat_eq_append, ← List.cons_append]
      exact List.getLast?_concat
  refine ⟨c, hlast, ?_⟩
  rw [hbody, List.concat_eq_append] at hdepth houter
  obtain ⟨between, hfront, hend⟩ := exists_depthAfter hdepth
  -- All brackets are closed at the end, so the last character closes one or stands outside.
  rcases depthAfter_cons hend with ⟨-, hopen⟩ | ⟨hc, -⟩ | ⟨hother, hclosed⟩
  · exact absurd (Option.some.inj hopen) (Nat.succ_ne_zero between)
  · simp [hc]
  · obtain rfl := Option.some.inj hclosed
    have hmem : c ∈ outer 0 (_ ++ [c]) := mem_outer (isBalanced_iff.2 hfront) hother
    simp [houter c hmem]

theorem edged_enclosed (cs : List Char) : Edged ('(' :: cs ++ [')']) :=
  ⟨⟨'(', cs ++ [')'], rfl, by decide⟩, ')', List.getLast?_concat, by decide⟩

theorem edged_grouped {needed : Bool} {t : String} (h : needed = false → Edged t.toList) :
    Edged (grouped needed t).toList := by
  cases needed with
  | false => exact h rfl
  | true => simpa [grouped, String.toList_append] using edged_enclosed t.toList

/-- Nothing that stands before a text changes how it ends. -/
theorem Edged.last_append {cs : List Char} (h : Edged cs) (front : List Char) :
    ∃ c ∈ (front ++ cs).getLast?, (isClosing c || isOperandChar c) = true := by
  obtain ⟨c, hlast, hc⟩ := h.last
  refine ⟨c, ?_, hc⟩
  rw [List.getLast?_append, Option.mem_def.1 hlast]
  rfl

/-- A sign may stand before an operand that begins with none. -/
theorem Edged.signed {cs : List Char} (h : Edged cs) (hself : unsignedText cs = cs)
    (op : UnaryOp) : Edged (op.symbol.toList ++ cs) := by
  have hbody : unsignedText (op.symbol.toList ++ cs) = cs := by cases op <;> rfl
  exact ⟨by rw [hbody, ← hself]; exact h.first, h.last_append _⟩

theorem Edged.append {as bs : List Char} (ha : Edged as) (between : List Char) (hb : Edged bs) :
    Edged (as ++ (between ++ bs)) := by
  constructor
  · obtain ⟨c, rest, hbody, hc⟩ := ha.first
    refine ⟨c, rest ++ (between ++ bs), ?_, hc⟩
    cases as with
    | nil => cases hbody
    | cons a as =>
        rw [List.cons_append]
        rw [unsignedText] at hbody ⊢
        split at hbody
        · next hs => rw [if_pos hs, hbody, List.cons_append]
        · next hs =>
            obtain ⟨rfl, rfl⟩ := List.cons.inj hbody
            rw [if_neg hs]
  · rw [← List.append_assoc]
    exact hb.last_append _

theorem strength_lt_unaryStrength (op : BinaryOp) : op.strength < unaryStrength :=
  Nat.lt_succ_of_le (binaryOp?_symbol op).2.2

/-- What binds as tightly as a sign without being one is an operand as it was given. -/
theorem FromTexts.exists_literal {x : Expr} (h : FromTexts x) (hsign : x.leadsWithSign = false)
    (hstrength : unaryStrength ≤ x.strength) :
    ∃ t, x = .literal t ∧ isOperand t.toList = true ∧ isSigned t = false := by
  cases h with
  | @leaf t hne _ =>
      rcases ofText_cases hne with ⟨htext, hoperand⟩ | htext
      · rw [htext] at hsign
        exact ⟨t, htext, hoperand, hsign⟩
      · rw [htext] at hstrength
        exact absurd hstrength (by simp [strength, unaryStrength])
  | unary _ => cases hsign
  | @binary op l r _ _ => exact absurd hstrength (Nat.not_le.2 (strength_lt_unaryStrength op))

theorem unsignedText_of_not_isSigned {t : String} (h : isSigned t = false) :
    unsignedText t.toList = t.toList := by
  rw [isSigned] at h
  split at h
  · next hnil => rw [hnil]; rfl
  · next c cs hcons => rw [hcons, unsignedText, if_neg (by simp [h])]

/-- The text of an operation, between its operands as they are written. -/
theorem toList_text_binary (op : BinaryOp) (l r : Expr) :
    (binary op l r).text.toList
      = (grouped (l.strength < op.strength) l.text).toList ++ ' ' :: (op.symbol.toList ++
        ' ' :: (grouped (r.strength < op.strength + 1) r.text).toList) := by
  simp [text, String.toList_append]

theorem isRaw_of_place {x : Expr} {place : Nat} (hplace : 0 < place)
    (h : decide (x.strength < place) = false) : x.isRaw = false := by
  cases hraw : x.isRaw with
  | false => rfl
  | true => simp [strength_of_isRaw hraw, hplace] at h

theorem edged_placed {x : Expr} {place : Nat} (h : x.isRaw = false → Edged x.text.toList)
    (hplace : 0 < place) : Edged (grouped (x.strength < place) x.text).toList :=
  edged_grouped fun hneeded => h (isRaw_of_place hplace hneeded)

theorem FromTexts.edged {e : Expr} (h : FromTexts e) (hraw : e.isRaw = false) :
    Edged e.text.toList := by
  induction h with
  | @leaf t hne _ =>
      rcases ofText_cases hne with ⟨htext, hoperand⟩ | htext
      · rw [htext, text]
        exact edged_of_isOperand hoperand
      · rw [htext] at hraw
        cases hraw
  | @unary op x hx ih =>
      rw [text, String.toList_append]
      cases hneeded : (x.leadsWithSign || decide (x.strength < unaryStrength)) with
      | true =>
          have hgroup := (edged_enclosed x.text.toList).signed rfl op
          simpa [grouped, String.toList_append] using hgroup
      | false =>
          obtain ⟨hsign, hstrength⟩ := Bool.or_eq_false_iff.1 hneeded
          obtain ⟨t, rfl, -, hunsigned⟩ := hx.exists_literal hsign (by simpa using hstrength)
          exact (ih rfl).signed (unsignedText_of_not_isSigned hunsigned) op
  | @binary op l r _ _ ihl ihr =>
      have hoperation := (edged_placed ihl (strength_pos op)).append
        (' ' :: (op.symbol.toList ++ [' '])) (edged_placed ihr (Nat.succ_pos op.strength))
      rw [toList_text_binary]
      simpa using hoperation

/-! ## How tightly the operators of a text bind -/

/-- Signs and operands show no blank outside of brackets. -/
theorem FromTexts.blank_not_mem_outer {e : Expr} (h : FromTexts e)
    (hstrength : unaryStrength ≤ e.strength) : ' ' ∉ outer 0 e.text.toList := by
  induction h with
  | @leaf t hne _ =>
      rcases ofText_cases hne with ⟨htext, hoperand⟩ | htext
      · rw [htext, text]
        intro hblank
        rcases (outer_of_isOperand hoperand).2 ' ' hblank with hs | hc
        · exact absurd hs (by decide)
        · exact absurd hc (by decide)
      · rw [htext] at hstrength
        exact absurd hstrength (by simp [strength, unaryStrength])
  | @unary op x hx ih =>
      have hsymbol : ' ' ∉ outer 0 op.symbol.toList := by cases op <;> decide
      rw [text, String.toList_append, outer_balanced (isSingle_symbol_of_unary op).1,
        List.mem_append, not_or]
      refine ⟨hsymbol, ?_⟩
      cases hneeded : (x.leadsWithSign || decide (x.strength < unaryStrength)) with
      | true =>
          have hgroup := outer_enclosed (o := '(') (c := ')') rfl rfl
            (settled_of_isFormed hx.isFormed).1
          rw [grouped, if_pos rfl, String.toList_append, String.toList_append]
          exact hgroup ▸ List.not_mem_nil
      | false =>
          obtain ⟨-, htight⟩ := Bool.or_eq_false_iff.1 hneeded
          exact ih (by simpa using htight)
  | @binary op l r _ _ => exact absurd hstrength (Nat.not_le.2 (strength_lt_unaryStrength op))

/-- An operator in what is written at a place binds at least as tightly as the place asks for,
since looser expressions are put in parentheses there. -/
theorem place_le_of_in {x : Expr} {place : Nat} {before after : List Char} {op : BinaryOp}
    (hx : x.Settled)
    (hp : Occurrence.In ⟨before, op, after⟩ (grouped (x.strength < place) x.text).toList)
    (hle : Occurrence.In ⟨before, op, after⟩ x.text.toList → x.strength ≤ op.strength) :
    place ≤ op.strength := by
  cases hneeded : decide (x.strength < place) with
  | false =>
      rw [hneeded] at hp
      exact Nat.le_trans (by simpa using hneeded) (hle hp)
  | true =>
      have hgroup := outer_enclosed (o := '(') (c := ')') rfl rfl hx.1
      have hblank := hp.blank_mem
      rw [hneeded, grouped, if_pos rfl, String.toList_append, String.toList_append] at hblank
      exact absurd (hgroup ▸ hblank) List.not_mem_nil

/-- An operator in the text of an operation stands in its left operand, in its right one, or
between them. -/
theorem FromTexts.cases_of_in {op : BinaryOp} {l r : Expr} (hl : FromTexts l) (hr : FromTexts r)
    {p : Occurrence} (hp : p.In (Expr.binary op l r).text.toList) :
    (∃ rest, (Occurrence.mk p.before p.op rest).In
        (grouped (l.strength < op.strength) l.text).toList) ∨
      p = ⟨(grouped (l.strength < op.strength) l.text).toList, op,
        (grouped (r.strength < op.strength + 1) r.text).toList⟩ ∨
      ∃ front, (Occurrence.mk front p.op p.after).In
        (grouped (r.strength < op.strength + 1) r.text).toList := by
  rw [toList_text_binary] at hp
  have hbalanced := ((settled_of_isFormed hl.isFormed).placed (strength_pos op)).1
  rcases hp.cases (edged_placed hl.edged (strength_pos op))
    (edged_placed hr.edged (Nat.succ_pos op.strength)) hbalanced with hleft | rfl | hright
  · exact .inl hleft
  · exact .inr (.inl rfl)
  · obtain ⟨front, -, hfront⟩ := hright
    exact .inr (.inr ⟨front, hfront⟩)

/-- **No operator in a text binds looser than the text does.** -/
theorem FromTexts.strength_le {e : Expr} (h : FromTexts e) {p : Occurrence}
    (hp : p.In e.text.toList) : e.strength ≤ p.op.strength := by
  induction h generalizing p with
  | @leaf t hne hbalanced =>
      rcases ofText_cases hne with ⟨htext, -⟩ | htext
      · have hstrength : unaryStrength ≤ (ofText t).strength := by
          rw [htext, strength]
          split <;> decide
        exact absurd hp.blank_mem ((FromTexts.leaf hne hbalanced).blank_not_mem_outer hstrength)
      · rw [htext]
        exact Nat.zero_le _
  | @unary op x hx _ =>
      exact absurd hp.blank_mem (hx.unary.blank_not_mem_outer (Nat.le_refl unaryStrength))
  | @binary op l r hl hr ihl ihr =>
      show op.strength ≤ p.op.strength
      rcases hl.cases_of_in hr hp with ⟨rest, hleft⟩ | rfl | ⟨front, hright⟩
      · exact place_le_of_in (settled_of_isFormed hl.isFormed) hleft ihl
      · exact Nat.le_refl _
      · exact Nat.le_of_succ_le (place_le_of_in (settled_of_isFormed hr.isFormed) hright ihr)

/-! ## The operator of an operation -/

theorem isMain_text (op : BinaryOp) {l r : Expr} (hl : FromTexts l) (hr : FromTexts r) :
    Occurrence.IsMain ⟨(grouped (l.strength < op.strength) l.text).toList, op,
      (grouped (r.strength < op.strength + 1) r.text).toList⟩ (binary op l r).text.toList := by
  have hlsettled := settled_of_isFormed hl.isFormed
  have hrsettled := settled_of_isFormed hr.isFormed
  refine ⟨⟨(hlsettled.placed (strength_pos op)).1, toList_text_binary op l r⟩, fun p hp => ?_⟩
  rw [p.level_eq, Occurrence.level_eq]
  dsimp only
  have hhigh := (binaryOp?_symbol p.op).2.2
  rcases hl.cases_of_in hr hp with ⟨rest, hleft⟩ | rfl | ⟨front, hright⟩
  -- On the left it may bind as tightly as the operator, which stands behind it,
  · have hle : op.strength ≤ p.op.strength := place_le_of_in hlsettled hleft hl.strength_le
    have hlength := congrArg List.length hleft.2
    simp only [List.length_append] at hlength
    omega
  · exact .inr ⟨rfl, Nat.le_refl _⟩
  -- and on the right it binds tighter.
  · have hlt : op.strength + 1 ≤ p.op.strength :=
      place_le_of_in hrsettled hright hr.strength_le
    omega

/-- **Texts keep to their places.** In a tree of signs and binary operators over given texts, take
any operation: of the binary operators that stand in its text with a blank on either side, outside
of brackets, the last one of those that bind loosest is its own, and the texts before and after it
are those of its two operands, each perhaps in parentheses. -/
theorem isMain_iff_of_isPart {e : Expr} (h : FromTexts e) {op : BinaryOp} {l r : Expr}
    (hpart : IsPart (.binary op l r) e) :
    ∃ left right : Bool, ∀ o : Occurrence, o.IsMain (binary op l r).text.toList ↔
      o = ⟨(grouped left l.text).toList, op, (grouped right r.text).toList⟩ := by
  have hoperation : FromTexts (.binary op l r) := hpart.of_fill FromTexts.of_fill h
  obtain ⟨hl, hr⟩ : FromTexts l ∧ FromTexts r := by
    exact ⟨FromTexts.of_fill (.left op r) l hoperation,
      FromTexts.of_fill (.right op l) r hoperation⟩
  have hmain := isMain_text op hl hr
  refine ⟨_, _, fun o => ⟨fun ho => ho.eq hmain, ?_⟩⟩
  rintro rfl
  exact hmain

/-- A product of a negated signed call and a sum. -/
def signedCallProduct : Expr := .binary .mul (.unary .neg (ofText "-f(x, y)")) (ofText "c + d")

/-- The product taken from a difference. -/
def mingled : Expr := .binary .sub (ofText "a - b") signedCallProduct

theorem isMain_iff_of_isPart_mingled :
    FromTexts mingled ∧ mingled.text = "(a - b) - -(-f(x, y)) * (c + d)" ∧
      IsPart signedCallProduct mingled ∧
      ∃ left right : Bool, ∀ o : Occurrence, o.IsMain "-(-f(x, y)) * (c + d)".toList ↔
        o = ⟨(grouped left "-(-f(x, y))").toList, .mul, (grouped right "c + d").toList⟩ := by
  have hleaf : ∀ t ∈ ["a - b", "-f(x, y)", "c + d"], FromTexts (ofText t) := by
    intro t ht
    have hgiven : t ≠ "" ∧ isBalanced t.toList = true := by revert t; decide
    exact .leaf hgiven.1 hgiven.2
  have hmingled : FromTexts mingled :=
    .binary (hleaf _ (by decide)) (.binary (.unary (hleaf _ (by decide))) (hleaf _ (by decide)))
  have hpart : IsPart signedCallProduct mingled := ⟨[.right .sub (ofText "a - b")], rfl⟩
  have htext : signedCallProduct.text = "-(-f(x, y)) * (c + d)" := by decide
  obtain ⟨left, right, hmain⟩ := isMain_iff_of_isPart hmingled hpart
  refine ⟨hmingled, by decide, hpart, left, right, fun o => ?_⟩
  rw [← htext]
  exact hmain o

end Shaderwright.Expr

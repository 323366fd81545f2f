import Shaderwright.Proofs.Expr.Brackets
import Shaderwright.Proofs.Expr.Parts
import Shaderwright.Proofs.Glsl.Lexer

/-!
# Raw text inside of expressions

Raw text is put in parentheses wherever it stands beside an operator, a point or a bracket. As the
argument of a call and as the position of an index it is written bare, and a comma in it that
stands outside of brackets becomes one of the call. So the arguments that are written between the
parentheses of a call are as many as the call has exactly if each raw one reads as a single
expression there, and so is the position of an index (`arity_iff_readsAsOne`).

The parts of a tree that is well formed otherwise show no comma outside of brackets
(`settled_of_isFormed`), which leaves the commas of the raw arguments and those that the call puts
between its arguments to be counted (`length_le_commas_join`).
-/

namespace Shaderwright.Expr

open Glsl

/-! ## Well-formed trees with raw text -/

/-- Letters, digits, underscores and points, as a name is written. -/
def isNameText (x : String) : Bool := !x.toList.isEmpty && x.toList.all isOperandChar

mutual

/-- Trees whose literals are operands, whose names are names, and whose raw text closes all of its
brackets and opens all that it closes. -/
def isFormed : Expr → Bool
  | .literal t => isOperand t.toList
  | .raw t => isBalanced t.toList
  | .ident x => isNameText x
  | .unary _ x => x.isFormed
  | .binary _ l r => l.isFormed && r.isFormed
  | .call f args => isNameText f && areFormed args
  | .member base m => base.isFormed && isNameText m
  | .index base position => base.isFormed && position.isFormed
  | .assign _ target value => target.isFormed && value.isFormed

def areFormed : List Expr → Bool
  | [] => true
  | x :: xs => x.isFormed && areFormed xs

end

theorem areFormed_iff {args : List Expr} :
    areFormed args = true ↔ ∀ x ∈ args, x.isFormed = true := by
  induction args with
  | nil => simp [areFormed]
  | cons x xs ih => simp [areFormed, ih]

/-- What stands in a well-formed tree is well formed. -/
theorem isFormed_of_fill (g : Gap) (x : Expr) (h : (g.fill x).isFormed = true) :
    x.isFormed = true := by
  cases g with
  | operand op => exact h
  | left op r | indexBase r | target op r => exact (Bool.and_eq_true_iff.1 h).1
  | right op l | position l | value op l => exact (Bool.and_eq_true_iff.1 h).2
  | memberBase m => exact (Bool.and_eq_true_iff.1 h).1
  | argument f before after =>
      exact areFormed_iff.1 (Bool.and_eq_true_iff.1 h).2 x (by simp)

theorem isFormed_of_isPart {x e : Expr} (hpart : IsPart x e) (h : e.isFormed = true) :
    x.isFormed = true :=
  hpart.of_fill (P := fun e => e.isFormed = true) isFormed_of_fill h

def isRaw : Expr → Bool
  | .raw _ => true
  | _ => false

/-! ## Commas outside of brackets -/

/-- A balanced text without a comma outside of its brackets. -/
def IsSingle (cs : List Char) : Prop := isBalanced cs = true ∧ ',' ∉ outer 0 cs

theorem IsSingle.append {as bs : List Char} (ha : IsSingle as) (hb : IsSingle bs) :
    IsSingle (as ++ bs) := by
  refine ⟨isBalanced_append ha.1 hb.1, ?_⟩
  rw [outer_balanced ha.1, List.mem_append, not_or]
  exact ⟨ha.2, hb.2⟩

theorem isSingle_enclosed {o c : Char} {cs : List Char} (ho : isOpening o = true)
    (hc : isClosing c = true) (h : isBalanced cs = true) : IsSingle (o :: cs ++ [c]) := by
  refine ⟨isBalanced_enclosed ho hc h, ?_⟩
  rw [outer_enclosed ho hc h]
  exact List.not_mem_nil

theorem isSingle_of_forall {cs : List Char} (h : ∀ c ∈ cs, isBracket c = false ∧ c ≠ ',') :
    IsSingle cs := by
  have hbrackets : ∀ c ∈ cs, isBracket c = false := fun c hc => (h c hc).1
  refine ⟨isBalanced_of_forall hbrackets, ?_⟩
  rw [outer_of_forall hbrackets]
  exact fun hmem => (h ',' hmem).2 rfl

theorem isSingle_of_all {cs : List Char} (h : cs.all (fun c => !isBracket c && c != ',') = true) :
    IsSingle cs :=
  isSingle_of_forall (by simpa using h)

theorem isSingle_of_isNameText {x : String} (h : isNameText x = true) : IsSingle x.toList := by
  refine isSingle_of_forall fun c hc => ?_
  have hchar := List.all_eq_true.1 (Bool.and_eq_true_iff.1 h).2 c hc
  refine ⟨isBracket_of_isOperandChar hchar, ?_⟩
  rintro rfl
  exact absurd hchar (by decide)

theorem isSingle_of_isOperand {cs : List Char} (h : isOperand cs = true) : IsSingle cs := by
  obtain ⟨hbalanced, houter⟩ := outer_of_isOperand h
  refine ⟨hbalanced, fun hcomma => ?_⟩
  rcases houter ',' hcomma with hs | hc
  · exact absurd hs (by decide)
  · exact absurd hc (by decide)

theorem isSingle_symbol_of_unary (op : UnaryOp) : IsSingle op.symbol.toList :=
  isSingle_of_all (by cases op <;> rfl)

theorem isSingle_symbol_of_binary (op : BinaryOp) : IsSingle op.symbol.toList :=
  isSingle_of_all (by cases op <;> rfl)

theorem isSingle_symbol_of_assign (op : AssignOp) : IsSingle op.symbol.toList :=
  isSingle_of_all (by cases op <;> rfl)

/-! ## Texts of well-formed trees -/

/-- The text is balanced, and unless it is raw it has no comma outside of brackets. -/
def Settled (e : Expr) : Prop :=
  isBalanced e.text.toList = true ∧ (e.isRaw = false → ',' ∉ outer 0 e.text.toList)

theorem settled_of_isSingle {e : Expr} (h : IsSingle e.text.toList) : e.Settled :=
  ⟨h.1, fun _ => h.2⟩

/-- An operand shows no comma if it is put in parentheses whenever it is raw. -/
theorem Settled.grouped {x : Expr} (h : x.Settled) {needed : Bool}
    (hraw : x.isRaw = true → needed = true) : IsSingle (grouped needed x.text).toList := by
  cases needed with
  | false => exact ⟨h.1, h.2 (by simpa using hraw)⟩
  | true =>
      have henclosed := isSingle_enclosed (o := '(') (c := ')') rfl rfl h.1
      simpa [Expr.grouped, String.toList_append] using henclosed

theorem strength_of_isRaw {x : Expr} (h : x.isRaw = true) : x.strength = 0 := by
  cases x with
  | raw t => rfl
  | _ => cases h

/-- Every place beside an operator, a point or a bracket asks for some strength. -/
theorem Settled.placed {x : Expr} (h : x.Settled) {place : Nat} (hplace : 0 < place) :
    IsSingle (Expr.grouped (x.strength < place) x.text).toList :=
  h.grouped fun hraw => by simpa [strength_of_isRaw hraw] using hplace

theorem strength_pos (op : BinaryOp) : 0 < op.strength := by cases op <;> decide

theorem isSingle_between {left right s : String} (hl : IsSingle left.toList)
    (hs : IsSingle s.toList) (hr : IsSingle right.toList) :
    IsSingle (left ++ " " ++ s ++ " " ++ right).toList := by
  have hblank : IsSingle " ".toList := isSingle_of_all rfl
  simp only [String.toList_append]
  exact (((hl.append hblank).append hs).append hblank).append hr

theorem isBalanced_join {ts : List String} (h : ∀ t ∈ ts, isBalanced t.toList = true) :
    isBalanced (Text.join ", " ts).toList = true := by
  induction ts with
  | nil => rfl
  | cons t ts ih =>
      obtain ⟨ht, hts⟩ := List.forall_mem_cons.1 h
      cases ts with
      | nil => exact ht
      | cons s rest =>
          have hcomma : isBalanced ", ".toList = true := by decide
          simp only [Text.join, String.toList_append]
          exact isBalanced_append (isBalanced_append ht hcomma) (ih hts)

theorem isBalanced_argTexts {args : List Expr} (h : ∀ x ∈ args, x.Settled) :
    isBalanced (Text.join ", " (argTexts args)).toList = true := by
  refine isBalanced_join fun t ht => ?_
  rw [argTexts_eq_map, List.mem_map] at ht
  obtain ⟨x, hx, rfl⟩ := ht
  exact (h x hx).1

mutual

/-- **Commas stay inside.** The text of a well-formed tree is balanced, and only raw text has a
comma outside of brackets. -/
theorem settled_of_isFormed : ∀ {e : Expr}, e.isFormed = true → e.Settled
  | .literal t, h => by
      refine settled_of_isSingle ?_
      rw [text]
      exact isSingle_of_isOperand h
  | .raw t, h => ⟨by rw [text]; exact h, fun hraw => by cases hraw⟩
  | .ident x, h => by
      refine settled_of_isSingle ?_
      rw [text]
      exact isSingle_of_isNameText h
  | .unary op x, h => by
      have hx : x.Settled := settled_of_isFormed h
      have hgrouped :
          IsSingle (grouped (x.leadsWithSign || x.strength < unaryStrength) x.text).toList :=
        hx.grouped fun hraw => by simp [strength_of_isRaw hraw, unaryStrength]
      refine settled_of_isSingle ?_
      rw [text, String.toList_append]
      exact (isSingle_symbol_of_unary op).append hgrouped
  | .binary op l r, h => by
      obtain ⟨hl, hr⟩ := Bool.and_eq_true_iff.1 h
      have hleft : IsSingle (grouped (l.strength < op.strength) l.text).toList :=
        (settled_of_isFormed hl).placed (strength_pos op)
      have hright : IsSingle (grouped (r.strength < op.strength + 1) r.text).toList :=
        (settled_of_isFormed hr).placed (Nat.succ_pos op.strength)
      refine settled_of_isSingle ?_
      rw [text]
      exact isSingle_between hleft (isSingle_symbol_of_binary op) hright
  | .call f args, h => by
      obtain ⟨hf, hargs⟩ := Bool.and_eq_true_iff.1 h
      have henclosed := isSingle_enclosed (o := '(') (c := ')') rfl rfl
        (isBalanced_argTexts (settled_of_areFormed hargs))
      have hcall := (isSingle_of_isNameText hf).append henclosed
      refine settled_of_isSingle ?_
      rw [text]
      simpa [String.toList_append] using hcall
  | .member base m, h => by
      obtain ⟨hbase, hm⟩ := Bool.and_eq_true_iff.1 h
      have hpoint : IsSingle ".".toList := isSingle_of_all rfl
      have hgrouped : IsSingle (grouped (base.strength < postfixStrength) base.text).toList :=
        (settled_of_isFormed hbase).placed (by decide)
      refine settled_of_isSingle ?_
      rw [text, String.toList_append, String.toList_append]
      exact (hgrouped.append hpoint).append (isSingle_of_isNameText hm)
  | .index base position, h => by
      obtain ⟨hbase, hposition⟩ := Bool.and_eq_true_iff.1 h
      have henclosed := isSingle_enclosed (o := '[') (c := ']') rfl rfl
        (settled_of_isFormed hposition).1
      have hgrouped : IsSingle (grouped (base.strength < postfixStrength) base.text).toList :=
        (settled_of_isFormed hbase).placed (by decide)
      have hindex := hgrouped.append henclosed
      refine settled_of_isSingle ?_
      rw [text]
      simpa [String.toList_append] using hindex
  | .assign op target value, h => by
      obtain ⟨ht, hv⟩ := Bool.and_eq_true_iff.1 h
      have htarget : IsSingle (grouped (target.strength < unaryStrength) target.text).toList :=
        (settled_of_isFormed ht).placed (by decide)
      have hvalue : IsSingle (grouped (value.strength < assignStrength + 1) value.text).toList :=
        (settled_of_isFormed hv).placed (by decide)
      refine settled_of_isSingle ?_
      rw [text]
      exact isSingle_between htarget (isSingle_symbol_of_assign op) hvalue

theorem settled_of_areFormed : ∀ {args : List Expr}, areFormed args = true →
    ∀ x ∈ args, x.Settled
  | [], _ => by simp
  | x :: xs, h => by
      obtain ⟨hx, hxs⟩ := Bool.and_eq_true_iff.1 h
      exact List.forall_mem_cons.2 ⟨settled_of_isFormed hx, settled_of_areFormed hxs⟩

end

theorem not_isBlank_of_isOperandChar {c : Char} (h : isOperandChar c = true) :
    isBlank c = false := by
  cases hb : isBlank c with
  | false => rfl
  | true =>
      simp only [isBlank, List.contains_iff_mem, List.mem_cons, List.not_mem_nil, or_false] at hb
      rcases hb with rfl | rfl | rfl | rfl | rfl | rfl <;> exact absurd h (by decide)

theorem not_isBlank_of_isOpening {c : Char} (h : isOpening c = true) : isBlank c = false := by
  simp only [isOpening, Bool.or_eq_true, beq_iff_eq] at h
  rcases h with rfl | rfl <;> decide

theorem exists_of_isNameText {x : String} (h : isNameText x = true) :
    ∃ c ∈ x.toList, isOperandChar c = true := by
  obtain ⟨hne, hall⟩ := Bool.and_eq_true_iff.1 h
  obtain ⟨c, cs, hcs⟩ := List.exists_cons_of_ne_nil (by simpa using hne : x.toList ≠ [])
  have hc : c ∈ x.toList := by simp [hcs]
  exact ⟨c, hc, List.all_eq_true.1 hall c hc⟩

theorem exists_of_any {cs : List Char} (h : cs.any (fun c => !isBlank c) = true) :
    ∃ c ∈ cs, isBlank c = false := by
  simpa using h

/-- A well-formed tree that is not raw text itself is written with something else than blanks. -/
theorem exists_not_isBlank {e : Expr} (h : e.isFormed = true) (hraw : e.isRaw = false) :
    ∃ c ∈ e.text.toList, isBlank c = false := by
  cases e with
  | raw t => cases hraw
  | literal t =>
      obtain ⟨c, rest, hbody, hc⟩ := head_of_isOperand h
      have hmem : c ∈ t.toList := by
        rcases unsignedText_cases t.toList with hself | ⟨s, -, hcs⟩
        · rw [← hself, hbody]
          exact List.mem_cons_self
        · rw [hcs, hbody]
          exact List.mem_cons_of_mem s List.mem_cons_self
      refine ⟨c, by rwa [text], ?_⟩
      rcases Bool.or_eq_true_iff.1 hc with ho | hchar
      · exact not_isBlank_of_isOpening ho
      · exact not_isBlank_of_isOperandChar hchar
  | ident x =>
      obtain ⟨c, hc, hchar⟩ := exists_of_isNameText h
      exact ⟨c, by rwa [text], not_isBlank_of_isOperandChar hchar⟩
  | unary op x =>
      obtain ⟨c, hc, hblank⟩ : ∃ c ∈ op.symbol.toList, isBlank c = false :=
        exists_of_any (by cases op <;> rfl)
      exact ⟨c, by simp [text, hc], hblank⟩
  | binary op l r =>
      obtain ⟨c, hc, hblank⟩ : ∃ c ∈ op.symbol.toList, isBlank c = false :=
        exists_of_any (by cases op <;> rfl)
      exact ⟨c, by simp [text, hc], hblank⟩
  | call f args => exact ⟨'(', by simp [text], by decide⟩
  | member base m => exact ⟨'.', by simp [text], by decide⟩
  | index base position => exact ⟨'[', by simp [text], by decide⟩
  | assign op t v =>
      obtain ⟨c, hc, hblank⟩ : ∃ c ∈ op.symbol.toList, isBlank c = false :=
        exists_of_any (by cases op <;> rfl)
      exact ⟨c, by simp [text, hc], hblank⟩

/-! ## How many expressions are read -/

/-- How many expressions a text holds between its commas outside of brackets. A blank text holds
none. -/
def countArguments (cs : List Char) : Nat :=
  if cs.all isBlank then 0 else (outer 0 cs).count ',' + 1

/-- Whether a text that is written as one of `count` arguments is read as one: it has no comma
outside of brackets, and if it stands alone it is not blank. -/
def ReadsAsOne (count : Nat) (t : String) : Prop :=
  ',' ∉ outer 0 t.toList ∧ (count = 1 → t.toList.all isBlank = false)

theorem countArguments_eq_one_iff (t : String) :
    countArguments t.toList = 1 ↔ ReadsAsOne 1 t := by
  rw [countArguments, ReadsAsOne, ← List.count_eq_zero]
  cases t.toList.all isBlank <;> simp

theorem countArguments_of_exists {cs : List Char} (h : ∃ c ∈ cs, isBlank c = false) :
    countArguments cs = (outer 0 cs).count ',' + 1 := by
  have hall : ¬ cs.all isBlank = true := by simpa using h
  rw [countArguments, if_neg hall]

/-- A single argument is read as one unless it is raw text that is read otherwise. -/
theorem countArguments_text {e : Expr} (h : e.isFormed = true) :
    countArguments e.text.toList = 1 ↔ ∀ t, e = .raw t → ReadsAsOne 1 t := by
  cases hraw : e.isRaw with
  | true =>
      obtain ⟨t, rfl⟩ : ∃ t, e = .raw t := by
        cases e with
        | raw t => exact ⟨t, rfl⟩
        | _ => cases hraw
      rw [text, countArguments_eq_one_iff]
      exact ⟨fun hone s hs => Expr.raw.inj hs ▸ hone, fun hall => hall t rfl⟩
  | false =>
      have hcomma := (settled_of_isFormed h).2 hraw
      rw [countArguments_of_exists (exists_not_isBlank h hraw), List.count_eq_zero.2 hcomma]
      refine ⟨fun _ t ht => ?_, fun _ => rfl⟩
      rw [ht] at hraw
      cases hraw

/-- A call puts one comma less than it has arguments, and the arguments may only add to them. -/
theorem length_le_commas_join {args : List Expr} (h : ∀ x ∈ args, x.Settled) (hne : args ≠ []) :
    args.length ≤ (outer 0 (Text.join ", " (argTexts args)).toList).count ',' + 1 ∧
      ((outer 0 (Text.join ", " (argTexts args)).toList).count ',' + 1 = args.length ↔
        ∀ x ∈ args, ',' ∉ outer 0 x.text.toList) := by
  induction args with
  | nil => exact absurd rfl hne
  | cons x xs ih =>
      obtain ⟨hx, hxs⟩ := List.forall_mem_cons.1 h
      cases xs with
      | nil => simp [argTexts, Text.join, List.count_eq_zero]
      | cons y ys =>
          obtain ⟨hle, hiff⟩ := ih hxs (List.cons_ne_nil y ys)
          have hcomma : isBalanced ", ".toList = true := by decide
          have houter : outer 0 (Text.join ", " (argTexts (x :: y :: ys))).toList
              = outer 0 x.text.toList ++ [',', ' '] ++
                outer 0 (Text.join ", " (argTexts (y :: ys))).toList := by
            simp only [argTexts, Text.join, String.toList_append]
            rw [outer_balanced (isBalanced_append hx.1 hcomma), outer_balanced hx.1]
            rfl
          rw [houter, List.forall_mem_cons, ← hiff, ← List.count_eq_zero]
          simp only [List.count_append, List.length_cons] at hle ⊢
          have hseparator : [',', ' '].count ',' = 1 := by decide
          rw [hseparator]
          constructor
          · omega
          · omega

/-- The arguments of a call are read as many as there are exactly if each raw one is read as
one. -/
theorem countArguments_argTexts {args : List Expr} (h : areFormed args = true) :
    countArguments (Text.join ", " (argTexts args)).toList = args.length ↔
      ∀ t, .raw t ∈ args → ReadsAsOne args.length t := by
  have hformed := areFormed_iff.1 h
  match args with
  | [] => simp [argTexts, Text.join, countArguments]
  | [x] =>
      have hone := countArguments_text (hformed x List.mem_cons_self)
      simpa [argTexts, Text.join, eq_comm] using hone
  | x :: y :: ys =>
      obtain ⟨hle, hiff⟩ :=
        length_le_commas_join (settled_of_areFormed h) (List.cons_ne_nil x (y :: ys))
      -- With two arguments there is a comma between them, so the text is not blank.
      have hcomma : ',' ∈ (Text.join ", " (argTexts (x :: y :: ys))).toList := by
        simp [argTexts, Text.join]
      rw [countArguments_of_exists ⟨',', hcomma, by decide⟩, hiff]
      constructor
      · intro hall t ht
        exact ⟨by simpa [text] using hall _ ht, by simp⟩
      · intro hall z hz
        cases hraw : z.isRaw with
        | false => exact (settled_of_areFormed h z hz).2 hraw
        | true =>
            cases z with
            | raw t => rw [text]; exact (hall t hz).1
            | _ => cases hraw

/-! ## Where raw text is grouped -/

/-- **Where raw text is grouped, and what that does to calls and indices.** In a well-formed tree
raw text is written in parentheses, whatever it is, unless it stands as the argument of a call or
as the position of an index, where it is written bare. Each call is written with as many arguments
as it has exactly if each raw one of them is read as one, and the same holds of the position of an
index. -/
theorem arity_iff_readsAsOne (e : Expr) (he : e.isFormed = true) :
    (∀ (g : Gap) (gs : List Gap) (t : String), fillAll (g :: gs) (.raw t) = e →
      ∃ before after, e.text = before ++ grouped (!g.isEnclosed) t ++ after ∧ ∀ u,
        (fillAll (g :: gs) (.raw u)).text = before ++ grouped (!g.isEnclosed) u ++ after) ∧
    (∀ f args, IsPart (.call f args) e → ∃ inner, isBalanced inner.toList = true ∧
      (call f args).text = f ++ "(" ++ inner ++ ")" ∧
      (countArguments inner.toList = args.length ↔
        ∀ t, .raw t ∈ args → ReadsAsOne args.length t)) ∧
    (∀ base position, IsPart (.index base position) e → ∃ before inner,
      isBalanced before.toList = true ∧ isBalanced inner.toList = true ∧
      (index base position).text = before ++ "[" ++ inner ++ "]" ∧
      (countArguments inner.toList = 1 ↔ ∀ t, position = .raw t → ReadsAsOne 1 t)) := by
  refine ⟨fun g gs t heq => ?_, fun f args hpart => ?_, fun base position hpart => ?_⟩
  · obtain ⟨before, after, htext⟩ := text_fillAll g gs
    have hraw : ∀ u, (fillAll (g :: gs) (.raw u)).text
        = before ++ grouped (!g.isEnclosed) u ++ after := by
      intro u
      rw [htext, g.groups_raw, text]
    exact ⟨before, after, heq ▸ hraw t, hraw⟩
  · have hcall : (call f args).isFormed = true := isFormed_of_isPart hpart he
    have hargs := (Bool.and_eq_true_iff.1 hcall).2
    exact ⟨_, isBalanced_argTexts (settled_of_areFormed hargs), by rw [text],
      countArguments_argTexts hargs⟩
  · have hindex : (index base position).isFormed = true := isFormed_of_isPart hpart he
    obtain ⟨hbase, hposition⟩ := Bool.and_eq_true_iff.1 hindex
    have hgrouped : IsSingle (grouped (base.strength < postfixStrength) base.text).toList :=
      (settled_of_isFormed hbase).placed (by decide)
    exact ⟨_, _, hgrouped.1, (settled_of_isFormed hposition).1, by rw [text],
      countArguments_text hposition⟩

/-- A call with a raw pair beside a raw position and a raw sum under an operator. -/
def listed : Expr :=
  .call "f" [.raw "a, b", .index (.ident "w") (.raw "i"),
    .binary .mul (.raw "c + d") (.literal "2")]

theorem arity_iff_readsAsOne_listed :
    listed.isFormed = true ∧ listed.text = "f(a, b, w[i], (c + d) * 2)" ∧
      (∃ inner, isBalanced inner.toList = true ∧ listed.text = "f" ++ "(" ++ inner ++ ")" ∧
        countArguments inner.toList ≠ 3) ∧
      ∃ before inner, (index (.ident "w") (.raw "i")).text = before ++ "[" ++ inner ++ "]" ∧
        countArguments inner.toList = 1 := by
  have hformed : listed.isFormed = true := by decide
  obtain ⟨-, hcalls, hindices⟩ := arity_iff_readsAsOne listed hformed
  refine ⟨hformed, by decide, ?_, ?_⟩
  · obtain ⟨inner, hbalanced, htext, hcount⟩ := hcalls "f" _ ⟨[], rfl⟩
    refine ⟨inner, hbalanced, htext, fun hthree => ?_⟩
    have hpair := (hcount.1 hthree "a, b" List.mem_cons_self).1
    exact absurd hpair (by decide)
  · obtain ⟨before, inner, -, -, htext, hcount⟩ := hindices (.ident "w") (.raw "i")
      ⟨[.argument "f" [.raw "a, b"] [.binary .mul (.raw "c + d") (.literal "2")]], rfl⟩
    refine ⟨before, inner, htext, hcount.2 fun t ht => ?_⟩
    obtain rfl := Expr.raw.inj ht
    exact ⟨by decide, fun _ => by decide⟩

/-- A pair of arguments, given as the text of one, is written without parentheses, and the call
has two arguments. -/
theorem rawPair_adds_argument :
    (call "f" [.raw "a, b"]).isFormed = true ∧ (call "f" [.raw "a, b"]).text ≠ "f((a, b))" ∧
      ¬ ∃ inner, (call "f" [.raw "a, b"]).text = "f" ++ "(" ++ inner ++ ")" ∧
        countArguments inner.toList = 1 := by
  refine ⟨by decide, by decide, ?_⟩
  rintro ⟨inner, htext, hcount⟩
  have hpair : (call "f" [.raw "a, b"]).text = "f" ++ "(" ++ "a, b" ++ ")" := by decide
  obtain rfl : "a, b" = inner := by
    have hsame := hpair.symm.trans htext
    rwa [String.append_left_inj, String.append_right_inj] at hsame
  exact absurd hcount (by decide)

end Shaderwright.Expr

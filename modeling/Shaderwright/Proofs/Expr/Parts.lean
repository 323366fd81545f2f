import Shaderwright.Expr.Printer

/-!
# Parts of expressions

A part of an expression stands at a place in it, which the nodes around the part make up: from
the innermost outwards, each of them has a gap for one of its operands. What is written around
the part depends on the place and on how tightly the part binds, and on nothing else of it
(`text_fillAll`).
-/

namespace Shaderwright.Expr

/-- A node with a gap for one of its operands. -/
inductive Gap where
  | operand (op : UnaryOp)
  | left (op : BinaryOp) (rhs : Expr)
  | right (op : BinaryOp) (lhs : Expr)
  | argument (name : String) (before after : List Expr)
  | memberBase (name : String)
  | indexBase (position : Expr)
  | position (base : Expr)
  | target (op : AssignOp) (value : Expr)
  | value (op : AssignOp) (target : Expr)

namespace Gap

def fill : Gap → Expr → Expr
  | .operand op, x => .unary op x
  | .left op r, x => .binary op x r
  | .right op l, x => .binary op l x
  | .argument f before after, x => .call f (before ++ x :: after)
  | .memberBase m, x => .member x m
  | .indexBase i, x => .index x i
  | .position b, x => .index b x
  | .target op v, x => .assign op x v
  | .value op t, x => .assign op t x

/-- Whether what fills the gap is put in parentheses. -/
def groups : Gap → Expr → Bool
  | .operand _, x => x.leadsWithSign || x.strength < unaryStrength
  | .left op _, x => x.strength < op.strength
  | .right op _, x => x.strength < op.strength + 1
  | .argument _ _ _, _ | .position _, _ => false
  | .memberBase _, x | .indexBase _, x => x.strength < postfixStrength
  | .target _ _, x => x.strength < unaryStrength
  | .value _ _, x => x.strength < assignStrength + 1

/-- The gaps that are closed off by the node itself, between the commas of a call or the brackets
of an index. -/
def isEnclosed : Gap → Bool
  | .argument _ _ _ | .position _ => true
  | _ => false

end Gap

/-- Puts an expression into the innermost of the gaps, which comes first. -/
def fillAll : List Gap → Expr → Expr
  | [], x => x
  | g :: gs, x => fillAll gs (g.fill x)

/-- `x` stands somewhere in `e`, or is `e` itself. -/
def IsPart (x e : Expr) : Prop := ∃ gs, fillAll gs x = e

/-- What a node hands on to its operands holds of all parts. -/
theorem IsPart.of_fill {P : Expr → Prop} (h : ∀ (g : Gap) (x : Expr), P (g.fill x) → P x)
    {x e : Expr} (hpart : IsPart x e) (he : P e) : P x := by
  obtain ⟨gs, rfl⟩ := hpart
  induction gs generalizing x with
  | nil => exact he
  | cons g gs ih => exact h g x (ih he)

theorem fillAll_append (gs hs : List Gap) (x : Expr) :
    fillAll (gs ++ hs) x = fillAll hs (fillAll gs x) := by
  induction gs generalizing x with
  | nil => rfl
  | cons g gs ih => exact ih (g.fill x)

def operands : Expr → List Expr
  | .literal _ | .raw _ | .ident _ => []
  | .unary _ x => [x]
  | .binary _ l r => [l, r]
  | .call _ args => args
  | .member base _ => [base]
  | .index base position => [base, position]
  | .assign _ target value => [target, value]

/-- What fills a gap is an operand, and each operand fills one. -/
theorem mem_operands_iff {y e : Expr} : y ∈ e.operands ↔ ∃ g : Gap, g.fill y = e := by
  constructor
  · intro hy
    cases e with
    | literal | raw | ident => cases hy
    | unary op x =>
        obtain rfl := List.mem_singleton.1 hy
        exact ⟨.operand op, rfl⟩
    | member base m =>
        obtain rfl := List.mem_singleton.1 hy
        exact ⟨.memberBase m, rfl⟩
    | binary op l r =>
        obtain rfl | rfl : y = l ∨ y = r := by simpa [operands] using hy
        · exact ⟨.left op r, rfl⟩
        · exact ⟨.right op l, rfl⟩
    | index base position =>
        obtain rfl | rfl : y = base ∨ y = position := by simpa [operands] using hy
        · exact ⟨.indexBase position, rfl⟩
        · exact ⟨.position base, rfl⟩
    | assign op t v =>
        obtain rfl | rfl : y = t ∨ y = v := by simpa [operands] using hy
        · exact ⟨.target op v, rfl⟩
        · exact ⟨.value op t, rfl⟩
    | call f args =>
        obtain ⟨before, after, rfl⟩ := List.append_of_mem hy
        exact ⟨.argument f before after, rfl⟩
  · rintro ⟨g, rfl⟩
    cases g <;> simp [Gap.fill, operands]

/-- A part is the expression itself or a part of one of its operands. -/
theorem isPart_iff {x e : Expr} : IsPart x e ↔ x = e ∨ ∃ y ∈ e.operands, IsPart x y := by
  constructor
  · rintro ⟨gs, rfl⟩
    rcases List.eq_nil_or_concat gs with rfl | ⟨gs, g, rfl⟩
    · exact .inl rfl
    · rw [List.concat_eq_append, fillAll_append]
      exact .inr ⟨fillAll gs x, mem_operands_iff.2 ⟨g, rfl⟩, gs, rfl⟩
  · rintro (rfl | ⟨y, hy, gs, rfl⟩)
    · exact ⟨[], rfl⟩
    · obtain ⟨g, rfl⟩ := mem_operands_iff.1 hy
      exact ⟨gs ++ [g], fillAll_append gs [g] x⟩

/-! ## What is written around a part -/

theorem join_append_cons (separator : String) (before after : List String) :
    ∃ front back, ∀ t, Text.join separator (before ++ t :: after) = front ++ t ++ back := by
  induction before with
  | nil =>
      cases after with
      | nil => exact ⟨"", "", fun t => by simp [Text.join]⟩
      | cons s rest =>
          exact ⟨"", separator ++ Text.join separator (s :: rest), fun t => by
            simp [Text.join, String.append_assoc]⟩
  | cons s before ih =>
      obtain ⟨front, back, hrest⟩ := ih
      refine ⟨s ++ separator ++ front, back, fun t => ?_⟩
      obtain ⟨r, rs, hcons⟩ : ∃ r rs, before ++ t :: after = r :: rs :=
        List.exists_cons_of_ne_nil (by simp)
      rw [List.cons_append, hcons, Text.join, ← hcons, hrest]
      simp [String.append_assoc]

/-- What fills a gap is written as it stands or in parentheses, with the same texts before and
after it whatever it is. -/
theorem Gap.text_fill (g : Gap) :
    ∃ before after, ∀ x, (g.fill x).text = before ++ grouped (g.groups x) x.text ++ after := by
  cases g with
  | operand op => exact ⟨op.symbol, "", fun x => by simp [fill, text, groups]⟩
  | left op r =>
      exact ⟨"", " " ++ op.symbol ++ " " ++ grouped (r.strength < op.strength + 1) r.text,
        fun x => by simp [fill, text, groups, String.append_assoc]⟩
  | right op l =>
      exact ⟨grouped (l.strength < op.strength) l.text ++ " " ++ op.symbol ++ " ", "",
        fun x => by simp [fill, text, groups]⟩
  | argument f before after =>
      obtain ⟨front, back, hjoin⟩ :=
        join_append_cons ", " (before.map Expr.text) (after.map Expr.text)
      refine ⟨f ++ "(" ++ front, back ++ ")", fun x => ?_⟩
      have hargs := hjoin x.text
      rw [fill, text, argTexts_eq_map, List.map_append, List.map_cons, hargs, groups, grouped]
      simp [String.append_assoc]
  | memberBase m => exact ⟨"", "." ++ m, fun x => by simp [fill, text, groups, String.append_assoc]⟩
  | indexBase i =>
      exact ⟨"", "[" ++ i.text ++ "]",
        fun x => by simp [fill, text, groups, String.append_assoc]⟩
  | position b =>
      exact ⟨grouped (b.strength < postfixStrength) b.text ++ "[", "]",
        fun x => by simp [fill, text, groups, grouped]⟩
  | target op v =>
      exact ⟨"", " " ++ op.symbol ++ " " ++ grouped (v.strength < assignStrength + 1) v.text,
        fun x => by simp [fill, text, groups, String.append_assoc]⟩
  | value op t =>
      exact ⟨grouped (t.strength < unaryStrength) t.text ++ " " ++ op.symbol ++ " ", "",
        fun x => by simp [fill, text, groups]⟩

/-- How tightly a node binds does not depend on what fills its gap, so neither does whether it is
put in parentheses itself. -/
theorem Gap.groups_fill (g inner : Gap) (x y : Expr) :
    g.groups (inner.fill x) = g.groups (inner.fill y) := by
  have hstrength : (inner.fill x).strength = (inner.fill y).strength := by cases inner <;> rfl
  have hsign : (inner.fill x).leadsWithSign = (inner.fill y).leadsWithSign := by
    cases inner <;> rfl
  cases g <;> simp only [groups, hstrength, hsign]

/-- **A part at its place.** Around what fills the innermost gap the text is the same whatever it
is, with parentheses if that gap asks for them. -/
theorem text_fillAll (g : Gap) (gs : List Gap) :
    ∃ before after, ∀ x,
      (fillAll (g :: gs) x).text = before ++ grouped (g.groups x) x.text ++ after := by
  induction gs generalizing g with
  | nil => exact g.text_fill
  | cons outer gs ih =>
      obtain ⟨front, back, hinner⟩ := g.text_fill
      obtain ⟨before, after, houter⟩ := ih outer
      -- The node around the gap is grouped for every filling or for none.
      cases hgroups : outer.groups (g.fill (.raw "")) with
      | false =>
          refine ⟨before ++ front, back ++ after, fun x => ?_⟩
          rw [fillAll, houter, outer.groups_fill g x (.raw ""), hgroups, hinner]
          simp [grouped, String.append_assoc]
      | true =>
          refine ⟨before ++ "(" ++ front, back ++ ")" ++ after, fun x => ?_⟩
          rw [fillAll, houter, outer.groups_fill g x (.raw ""), hgroups, hinner]
          simp [grouped, String.append_assoc]

/-- Raw text is put in parentheses at every place but the enclosed ones. -/
theorem Gap.groups_raw (g : Gap) (t : String) : g.groups (.raw t) = !g.isEnclosed := by
  cases g with
  | left op _ => cases op <;> rfl
  | _ => rfl

end Shaderwright.Expr

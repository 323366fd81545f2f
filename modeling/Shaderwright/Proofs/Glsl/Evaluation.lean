import Mathlib.Algebra.Order.Field.Rat
import Shaderwright.Decimal.Reader
import Shaderwright.Proofs.Glsl.Typing
import Shaderwright.Proofs.Shader.Edits

/-!
# Running statements

What the statements of a main function make of the values of its names, over the rational
numbers. Numbers, rows of numbers and truth values are followed; matrices, textures and
anything without a meaning are one value without any properties.

What is left to the device, or is no rational number, is not fixed: lengths, powers other than
squares, texels, quotients by zero and all other functions are those of some surroundings. A
theorem is about all surroundings.
-/

namespace Shaderwright.Glsl

/-! ## Values -/

inductive Value where
  | number (x : ℚ)
  | row (xs : List ℚ)
  | truth (b : Bool)
  /-- Whatever is not followed. -/
  | other
deriving DecidableEq

/-- The values of all names. -/
abbrev Store := String → Value

def Store.set (σ : Store) (x : String) (v : Value) : Store := fun y => if y = x then v else σ y

theorem Store.set_apply (σ : Store) (x : String) (v : Value) (y : String) :
    σ.set x v y = if y = x then v else σ y := rfl

/-- What a device does where the language does not say it in rational numbers. -/
structure Surroundings where
  /-- The quotient of a number by zero. -/
  overZero : ℚ → ℚ
  length : Value → ℚ
  power : ℚ → ℚ → ℚ
  /-- The four channels of a texture at a coordinate. -/
  texel : Value → Value → ℚ × ℚ × ℚ × ℚ
  call : String → List Value → Value

/-! ## Operators -/

/-- The number that digits around a point stand for. -/
def decimalValue? (cs : List Char) : Option ℚ :=
  match Text.splitAt? '.' cs with
  | some (whole, fraction) =>
      if whole.all Char.isDigit && fraction.all Char.isDigit then
        some ((Decimal.ofDigits 10 (whole ++ fraction) : ℚ) / (10 ^ fraction.length : Nat))
      else none
  | none => none

/-- Truth values and numbers with a point. Integers are not followed, since they divide
otherwise. -/
def literalValue (t : String) : Value :=
  if t = "true" then .truth true
  else if t = "false" then .truth false
  else
    match t.toList with
    | '-' :: cs => ((decimalValue? cs).map fun x => Value.number (-x)).getD .other
    | cs => ((decimalValue? cs).map Value.number).getD .other

/-- Component by component, a number with every component of the other side. -/
def componentwise (f : ℚ → ℚ → ℚ) : Value → Value → Value
  | .number x, .number y => .number (f x y)
  | .number x, .row ys => .row (ys.map fun y => f x y)
  | .row xs, .number y => .row (xs.map fun x => f x y)
  | .row xs, .row ys => if xs.length = ys.length then .row (List.zipWith f xs ys) else .other
  | _, _ => .other

def comparison (holds : ℚ → ℚ → Bool) : Value → Value → Value
  | .number x, .number y => .truth (holds x y)
  | _, _ => .other

def connective (f : Bool → Bool → Bool) : Value → Value → Value
  | .truth a, .truth b => .truth (f a b)
  | _, _ => .other

/-- Values that are followed are compared, others are not. -/
def equality : Value → Value → Value
  | .other, _ | _, .other => .other
  | v, w => .truth (v = w)

def unaryValue : UnaryOp → Value → Value
  | .neg, .number x => .number (-x)
  | .neg, .row xs => .row (xs.map fun x => -x)
  | .not, .truth b => .truth (!b)
  | _, _ => .other

/-- The components that letters of one set pick, in order. One of them is a number. -/
def swizzle (xs : List ℚ) (m : String) : Value :=
  match componentSets.findSome? fun letters => m.toList.mapM fun c => (letters.zip xs).lookup c with
  | some [x] => .number x
  | some (x :: y :: zs) => .row (x :: y :: zs)
  | _ => .other

def memberValue (m : String) : Value → Value
  | .row xs => swizzle xs m
  | _ => .other

namespace Surroundings

def divide (S : Surroundings) (x y : ℚ) : ℚ := if y = 0 then S.overZero x else x / y

def raise (S : Surroundings) (x y : ℚ) : ℚ := if y = 2 then x * x else S.power x y

def binary (S : Surroundings) : BinaryOp → Value → Value → Value
  | .mul => componentwise (· * ·)
  | .div => componentwise S.divide
  | .add => componentwise (· + ·)
  | .sub => componentwise (· - ·)
  | .lt => comparison fun x y => x < y
  | .gt => comparison fun x y => y < x
  | .le => comparison fun x y => x ≤ y
  | .ge => comparison fun x y => y ≤ x
  | .eq => equality
  | .ne => fun v w => unaryValue .not (equality v w)
  | .and => connective (· && ·)
  | .or => connective (· || ·)
  | .shl | .shr => fun _ _ => .other

def apply (S : Surroundings) (f : String) (args : List Value) : Value :=
  match f, args with
  | "length", [v] => .number (S.length v)
  | "pow", [.number x, .number y] => .number (S.raise x y)
  | "texture", [sampler, coordinate] =>
      let (r, g, b, a) := S.texel sampler coordinate
      .row [r, g, b, a]
  | _, _ => S.call f args

/-! ## Expressions and statements -/

mutual

/-- The value of an expression. An assignment has none, and neither has raw text. -/
def eval (S : Surroundings) (σ : Store) : Expr → Value
  | .literal t => literalValue t
  | .raw _ => .other
  | .ident x => σ x
  | .unary op e => unaryValue op (S.eval σ e)
  | .binary op l r => S.binary op (S.eval σ l) (S.eval σ r)
  | .call f args => S.apply f (S.evalArgs σ args)
  | .member base m => memberValue m (S.eval σ base)
  | .index _ _ => .other
  | .assign _ _ _ => .other

def evalArgs (S : Surroundings) (σ : Store) : List Expr → List Value
  | [] => []
  | e :: es => S.eval σ e :: S.evalArgs σ es

end

section
variable {S : Surroundings} {σ τ : Store}

mutual

/-- Only the values of the names in a tree count. -/
theorem eval_congr : ∀ e : Expr, (∀ x ∈ e.names, σ x = τ x) → S.eval σ e = S.eval τ e
  | .literal _, _ | .raw _, _ | .index _ _, _ | .assign _ _ _, _ => rfl
  | .ident x, h => h x (by simp [Expr.names])
  | .unary op e, h => by
      rw [eval, eval, eval_congr e h]
  | .binary op l r, h => by
      simp only [Expr.names, List.forall_mem_append] at h
      rw [eval, eval, eval_congr l h.1, eval_congr r h.2]
  | .call f args, h => by
      rw [eval, eval, evalArgs_congr args h]
  | .member base m, h => by
      rw [eval, eval, eval_congr base h]

theorem evalArgs_congr : ∀ es : List Expr, (∀ x ∈ Expr.argNames es, σ x = τ x) →
    S.evalArgs σ es = S.evalArgs τ es
  | [], _ => rfl
  | e :: es, h => by
      simp only [Expr.argNames, List.forall_mem_append] at h
      rw [evalArgs, evalArgs, eval_congr e h.1, evalArgs_congr es h.2]

end

end

/-- What an assignment leaves of a value. -/
def assigned (S : Surroundings) : AssignOp → Value → Value → Value
  | .set, _, v => v
  | .add, old, v => S.binary .add old v
  | .sub, old, v => S.binary .sub old v
  | .mul, old, v => S.binary .mul old v
  | .div, old, v => S.binary .div old v

/-- A name that is assigned to gets its value. One of which only a part is assigned to is not
followed any further. -/
def exec (S : Surroundings) (σ : Store) : Expr → Store
  | .assign op (.ident x) value => σ.set x (S.assigned op (σ x) (S.eval σ value))
  | .assign _ target _ => target.root?.elim σ fun x => σ.set x .other
  | _ => σ

/-- A run in the middle. -/
structure Progress where
  store : Store
  /-- The depth of the block that is being passed over. -/
  skipping : Option Nat := none

/-- One line. A block is passed over, with all that it holds, unless its condition holds. -/
def step (S : Surroundings) (p : Progress) (st : Statement) : Progress :=
  match p.skipping, st.line with
  | some depth, .close => if st.depth = depth then { p with skipping := none } else p
  | some _, _ => p
  | none, .statement e => { p with store := S.exec p.store e }
  | none, .openIf condition =>
      if S.eval p.store condition = .truth true then p else { p with skipping := some st.depth }
  | none, .close => p

/-- The values after lines, from those before. -/
def run (S : Surroundings) (σ : Store) (statements : List Statement) : Store :=
  (statements.foldl S.step { store := σ }).store

/-! ## Edits -/

/-- What the lines of an edit do. -/
def perform (S : Surroundings) (σ : Store) : Edit → Store
  | .declare _ _ _ => σ
  | .statement e => S.exec σ e
  | .conditional condition body =>
      if S.eval σ condition = .truth true then S.exec σ body else σ

/-- The lines of edits are run edit by edit, at whatever depth they are. -/
theorem run_edits (S : Surroundings) (σ : Store) (depth : Nat) (es : List Edit) :
    S.run σ (es.flatMap (Edit.lines depth)) = es.foldl S.perform σ := by
  have hedit : ∀ (σ : Store) (e : Edit),
      (e.lines depth).foldl S.step { store := σ } = { store := S.perform σ e } := by
    intro σ e
    cases e with
    | declare storage x changes => rfl
    | statement e => rfl
    | conditional condition body =>
        by_cases hholds : S.eval σ condition = .truth true
        · simp [Edit.lines, step, perform, hholds]
        · simp [Edit.lines, step, perform, hholds]
  suffices hall : ∀ σ : Store, (es.flatMap (Edit.lines depth)).foldl S.step { store := σ }
      = { store := es.foldl S.perform σ } from congrArg Progress.store (hall σ)
  induction es with
  | nil => exact fun σ => rfl
  | cons e es ih =>
      intro σ
      rw [List.flatMap_cons, List.foldl_append, hedit, List.foldl_cons]
      exact ih _

/-! ## Names that are given a value once -/

/-- The values after names were given those of expressions, one after the other. -/
def settle (S : Surroundings) (σ : Store) (program : List (String × Expr)) : Store :=
  program.foldl (fun σ entry => σ.set entry.1 (S.eval σ entry.2)) σ

theorem perform_sets (S : Surroundings) (σ : Store) (program : List (String × Expr)) :
    (program.map fun entry => Edit.statement (.set (.ident entry.1) entry.2)).foldl S.perform σ
      = S.settle σ program := List.foldl_map

theorem settle_of_not_mem {S : Surroundings} {σ : Store} {program : List (String × Expr)}
    {x : String} (h : x ∉ program.map Prod.fst) : S.settle σ program x = σ x := by
  induction program generalizing σ with
  | nil => rfl
  | cons entry program ih =>
      rw [List.map_cons, List.mem_cons, not_or] at h
      exact (ih h.2).trans (if_neg h.1)

end Surroundings

/-- No name is given a value twice, nor after it was read. -/
def SingleAssignment : List (String × Expr) → Prop
  | [] => True
  | entry :: program =>
      entry.1 ∉ entry.2.names ∧ (∀ x ∈ entry.1 :: entry.2.names, x ∉ program.map Prod.fst) ∧
        SingleAssignment program

/-- **Assignments hold at the end as equations**, if they give every name a value once and
before it is read. -/
theorem SingleAssignment.settle_eq {S : Surroundings} {σ : Store}
    {program : List (String × Expr)} (h : SingleAssignment program) :
    ∀ entry ∈ program,
      S.settle σ program entry.1 = S.eval (S.settle σ program) entry.2 := by
  induction program generalizing σ with
  | nil => exact fun entry hentry => nomatch hentry
  | cons first program ih =>
      obtain ⟨hself, hlater, hrest⟩ := h
      rw [List.forall_mem_cons] at hlater ⊢
      refine ⟨?_, ih hrest⟩
      -- Nothing that the first entry reads or gives a value is given one later.
      have hread : ∀ x ∈ first.2.names, σ x = S.settle σ (first :: program) x := by
        intro x hx
        have hne : x ≠ first.1 := fun heq => hself (heq ▸ hx)
        exact ((Surroundings.settle_of_not_mem (hlater.2 x hx)).trans (if_neg hne)).symm
      calc S.settle σ (first :: program) first.1
          = σ.set first.1 (S.eval σ first.2) first.1 := Surroundings.settle_of_not_mem hlater.1
        _ = S.eval σ first.2 := if_pos rfl
        _ = S.eval (S.settle σ (first :: program)) first.2 := Surroundings.eval_congr _ hread

end Shaderwright.Glsl

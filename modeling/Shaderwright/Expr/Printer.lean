import Shaderwright.Expr.Basic
import Shaderwright.Expr.Operand
import Shaderwright.Text.Words

/-!
# Writing expressions

Each construct binds with a strength; an operand that binds looser than its
place allows is put in parentheses. Binary operators associate to the left, so
their right operand has to bind tighter than the operator itself. The operand of
a sign is also grouped when it begins with a sign, so that two minus signs never
meet as a decrement.
-/

namespace Shaderwright

/-- Binding strengths, from loose to tight. -/
def BinaryOp.strength : BinaryOp → Nat
  | .mul | .div => 10
  | .add | .sub => 9
  | .shl | .shr => 8
  | .lt | .gt | .le | .ge => 7
  | .eq | .ne => 6
  | .and => 5
  | .or => 4

namespace Expr

def assignStrength : Nat := 1

def unaryStrength : Nat := 11

def postfixStrength : Nat := 12

def atomStrength : Nat := 13

/-- Whether a literal's text begins with a sign. -/
def isSigned (text : String) : Bool :=
  match text.toList with
  | [] => false
  | c :: _ => isSign c

def strength : Expr → Nat
  | .raw _ => 0
  | .literal text => if isSigned text then unaryStrength else atomStrength
  | .ident _ | .call _ _ => atomStrength
  | .member _ _ | .index _ _ => postfixStrength
  | .unary _ _ => unaryStrength
  | .binary op _ _ => op.strength
  | .assign _ _ _ => assignStrength

/-- Whether the text of the expression begins with a sign of its own. -/
def leadsWithSign : Expr → Bool
  | .unary _ _ => true
  | .literal text => isSigned text
  | _ => false

/-- Parentheses around `text`, if they are needed. -/
def grouped (needed : Bool) (text : String) : String :=
  if needed then "(" ++ text ++ ")" else text

mutual

/-- The source text of an expression. -/
def text : Expr → String
  | .literal t | .raw t | .ident t => t
  | .unary op x =>
      op.symbol ++ grouped (x.leadsWithSign || x.strength < unaryStrength) x.text
  | .binary op l r =>
      grouped (l.strength < op.strength) l.text ++ " " ++ op.symbol ++ " "
        ++ grouped (r.strength < op.strength + 1) r.text
  | .call name args => name ++ "(" ++ Text.join ", " (argTexts args) ++ ")"
  | .member base name => grouped (base.strength < postfixStrength) base.text ++ "." ++ name
  | .index base position =>
      grouped (base.strength < postfixStrength) base.text ++ "[" ++ position.text ++ "]"
  | .assign op target value =>
      grouped (target.strength < unaryStrength) target.text ++ " " ++ op.symbol ++ " "
        ++ grouped (value.strength < assignStrength + 1) value.text

def argTexts : List Expr → List String
  | [] => []
  | x :: xs => x.text :: argTexts xs

end

theorem argTexts_eq_map (xs : List Expr) : argTexts xs = xs.map text := by
  induction xs with
  | nil => rfl
  | cons x xs ih => simp [argTexts, ih]

end Expr

end Shaderwright

/-!
# Expressions

Trees of source text. Nothing is evaluated or type checked: a tree exists to be
written out with the parentheses its operators need. `literal` is the text of one
operand, `raw` is any other text, taken as it stands.
-/

namespace Shaderwright

inductive BinaryOp where
  | mul
  | div
  | add
  | sub
  | shl
  | shr
  | lt
  | gt
  | le
  | ge
  | eq
  | ne
  | and
  | or
deriving DecidableEq, Repr

namespace BinaryOp

def all : List BinaryOp :=
  [.mul, .div, .add, .sub, .shl, .shr, .lt, .gt, .le, .ge, .eq, .ne, .and, .or]

def symbol : BinaryOp → String
  | .mul => "*"
  | .div => "/"
  | .add => "+"
  | .sub => "-"
  | .shl => "<<"
  | .shr => ">>"
  | .lt => "<"
  | .gt => ">"
  | .le => "<="
  | .ge => ">="
  | .eq => "=="
  | .ne => "!="
  | .and => "&&"
  | .or => "||"

end BinaryOp

inductive UnaryOp where
  | neg
  | not
deriving DecidableEq, Repr

namespace UnaryOp

def symbol : UnaryOp → String
  | .neg => "-"
  | .not => "!"

end UnaryOp

/-- Plain or compound assignment. -/
inductive AssignOp where
  | set
  | add
  | sub
  | mul
  | div
deriving DecidableEq, Repr

namespace AssignOp

def all : List AssignOp := [.set, .add, .sub, .mul, .div]

def symbol : AssignOp → String
  | .set => "="
  | .add => "+="
  | .sub => "-="
  | .mul => "*="
  | .div => "/="

end AssignOp

inductive Expr where
  | literal (text : String)
  | raw (text : String)
  | ident (name : String)
  | unary (op : UnaryOp) (operand : Expr)
  | binary (op : BinaryOp) (lhs rhs : Expr)
  | call (name : String) (args : List Expr)
  | member (base : Expr) (name : String)
  | index (base position : Expr)
  | assign (op : AssignOp) (target value : Expr)
deriving Repr, Inhabited

namespace Expr

/-! ## Equality -/

mutual

/-- Equality of trees, node by node. -/
def same : Expr → Expr → Bool
  | .literal a, .literal b => a == b
  | .raw a, .raw b => a == b
  | .ident a, .ident b => a == b
  | .unary o x, .unary p y => decide (o = p) && same x y
  | .binary o a b, .binary p c d => decide (o = p) && same a c && same b d
  | .call f xs, .call g ys => f == g && sameArgs xs ys
  | .member x m, .member y n => same x y && m == n
  | .index a b, .index c d => same a c && same b d
  | .assign o a b, .assign p c d => decide (o = p) && same a c && same b d
  | _, _ => false

def sameArgs : List Expr → List Expr → Bool
  | [], [] => true
  | x :: xs, y :: ys => same x y && sameArgs xs ys
  | _, _ => false

end

mutual

theorem same_iff : ∀ a b : Expr, same a b = true ↔ a = b
  | .literal a, b => by cases b <;> simp [same]
  | .raw a, b => by cases b <;> simp [same]
  | .ident a, b => by cases b <;> simp [same]
  | .unary o x, b => by
      cases b <;> simp [same]
      rename_i p y
      simp [same_iff x y]
  | .binary o x y, b => by
      cases b <;> simp [same]
      rename_i p c d
      simp [same_iff x c, same_iff y d, and_assoc]
  | .call f xs, b => by
      cases b <;> simp [same]
      rename_i g ys
      simp [sameArgs_iff xs ys]
  | .member x m, b => by
      cases b <;> simp [same]
      rename_i y n
      simp [same_iff x y]
  | .index x y, b => by
      cases b <;> simp [same]
      rename_i c d
      simp [same_iff x c, same_iff y d]
  | .assign o x y, b => by
      cases b <;> simp [same]
      rename_i p c d
      simp [same_iff x c, same_iff y d, and_assoc]

theorem sameArgs_iff : ∀ xs ys : List Expr, sameArgs xs ys = true ↔ xs = ys
  | [], ys => by cases ys <;> simp [sameArgs]
  | x :: xs, ys => by
      cases ys with
      | nil => simp [sameArgs]
      | cons y ys => simp [sameArgs, same_iff x y, sameArgs_iff xs ys]

end

instance : DecidableEq Expr := fun a b =>
  decidable_of_iff (same a b = true) (same_iff a b)

end Expr

end Shaderwright

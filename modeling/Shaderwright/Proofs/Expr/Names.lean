import Shaderwright.Expr.Compose

/-!
# Names in expressions

Which names a tree mentions, what its assignments go to, and which variable an
access chain starts from.
-/

namespace Shaderwright.Expr

mutual

/-- The identifier leaves of a tree. -/
def names : Expr → List String
  | .literal _ | .raw _ => []
  | .ident x => [x]
  | .unary _ x => x.names
  | .binary _ l r => l.names ++ r.names
  | .call _ args => argNames args
  | .member base _ => base.names
  | .index base position => base.names ++ position.names
  | .assign _ target value => target.names ++ value.names

def argNames : List Expr → List String
  | [] => []
  | x :: xs => x.names ++ argNames xs

end

mutual

/-- The targets of all assignments in a tree. -/
def targets : Expr → List Expr
  | .literal _ | .raw _ | .ident _ => []
  | .unary _ x => x.targets
  | .binary _ l r => l.targets ++ r.targets
  | .call _ args => argTargets args
  | .member base _ => base.targets
  | .index base position => base.targets ++ position.targets
  | .assign _ target value => target :: (target.targets ++ value.targets)

def argTargets : List Expr → List Expr
  | [] => []
  | x :: xs => x.targets ++ argTargets xs

end

/-- The variable that a chain of members and indices starts from. -/
def root? : Expr → Option String
  | .ident x => some x
  | .member base _ => base.root?
  | .index base _ => base.root?
  | _ => none

@[simp] theorem mul_eq (a b : Expr) : a * b = .binary .mul a b := rfl

@[simp] theorem div_eq (a b : Expr) : a / b = .binary .div a b := rfl

@[simp] theorem add_eq (a b : Expr) : a + b = .binary .add a b := rfl

@[simp] theorem sub_eq (a b : Expr) : a - b = .binary .sub a b := rfl

end Shaderwright.Expr

import Shaderwright.Expr.Operand
import Shaderwright.Decimal.Layout

/-!
# Building expressions

Literals from values, the arithmetic operators and the language's built-in
functions. Floating-point literals always carry a decimal point or an exponent.
-/

namespace Shaderwright.Expr

/-! ## Literals -/

def ofFloat (x : Float) : Expr := .literal (Decimal.ofFloat x)

def ofFloat32 (x : Float32) : Expr := .literal (Decimal.ofFloat32 x)

def ofNat (n : Nat) : Expr := .literal (Nat.repr n)

def ofInt (n : Int) : Expr :=
  .literal (if n < 0 then "-" ++ Nat.repr n.natAbs else Nat.repr n.natAbs)

def ofBool (b : Bool) : Expr := .literal (if b then "true" else "false")

/-! ## Operators -/

instance : Add Expr := ⟨.binary .add⟩

instance : Sub Expr := ⟨.binary .sub⟩

instance : Mul Expr := ⟨.binary .mul⟩

instance : Div Expr := ⟨.binary .div⟩

instance : Neg Expr := ⟨.unary .neg⟩

/-- The statement `target = value`. -/
def set (target value : Expr) : Expr := .assign .set target value

/-- The statement `target += value`. -/
def increase (target value : Expr) : Expr := .assign .add target value

/-- The statement `target *= value`. -/
def scale (target value : Expr) : Expr := .assign .mul target value

/-! ## Functions -/

def normalize (x : Expr) : Expr := .call "normalize" [x]

def length (x : Expr) : Expr := .call "length" [x]

def dot (x y : Expr) : Expr := .call "dot" [x, y]

def cross (x y : Expr) : Expr := .call "cross" [x, y]

def pow (x y : Expr) : Expr := .call "pow" [x, y]

def mix (x y factor : Expr) : Expr := .call "mix" [x, y, factor]

/-- Clamps into `[0, 1]`. -/
def saturate (x : Expr) : Expr := .call "clamp" [x, ofFloat32 0.0, ofFloat32 1.0]

def vec2 (x y : Expr) : Expr := .call "vec2" [x, y]

def vec3 (x y z : Expr) : Expr := .call "vec3" [x, y, z]

def vec4 (x y z w : Expr) : Expr := .call "vec4" [x, y, z, w]

/-- The matrix of three columns. -/
def mat3 (c0 c1 c2 : Expr) : Expr := .call "mat3" [c0, c1, c2]

/-- The texel of `sampler` at `coordinate`. -/
def texture (sampler coordinate : Expr) : Expr := .call "texture" [sampler, coordinate]

end Shaderwright.Expr

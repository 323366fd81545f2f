import Shaderwright.Proofs.Expr.Names
import Shaderwright.Proofs.Glsl.Grammar
import Shaderwright.Variable.Basic

/-!
# The types of expressions

`typeOf?` gives the type of a tree under the types of its names, or nothing where
the language has no rule for it. There are no implicit conversions: a number is a
float because it has a point or an exponent. An assignment has the type of its
target, and only what has that same type is assigned.
-/

namespace Shaderwright.Glsl

/-! ## Operators -/

/-- The types that arithmetic works on. -/
def isNumeric : ShaderType → Bool
  | .float | .int | .vec _ | .mat _ => true
  | _ => false

/-- Scalars and vectors of floats. -/
def isGeneric : ShaderType → Bool
  | .float | .vec _ => true
  | _ => false

def numberType? (cs : List Char) : Option ShaderType :=
  if isFloat cs then some .float else if isInteger cs then some .int else none

def literalType? (t : String) : Option ShaderType :=
  if isConstantWord t then some .bool
  else
    match t.toList with
    | '-' :: cs => numberType? cs
    | cs => numberType? cs

def unaryType? : UnaryOp → ShaderType → Option ShaderType
  | .neg, t => if isNumeric t then some t else none
  | .not, t => if t = .bool then some .bool else none

/-- Component by component on equal types, a scalar with every component of the
other side, and the linear products of matrices and vectors. -/
def arithmeticType? (op : BinaryOp) (t u : ShaderType) : Option ShaderType :=
  if t = u then
    if isNumeric t then some t else none
  else
    match t, u with
    | .float, .vec n => some (.vec n)
    | .vec n, .float => some (.vec n)
    | .float, .mat n => some (.mat n)
    | .mat n, .float => some (.mat n)
    | .mat n, .vec m => if op = .mul ∧ n = m then some (.vec n) else none
    | .vec n, .mat m => if op = .mul ∧ n = m then some (.vec n) else none
    | _, _ => none

def binaryType? (op : BinaryOp) (t u : ShaderType) : Option ShaderType :=
  match op with
  | .mul | .div | .add | .sub => arithmeticType? op t u
  | .shl | .shr => if t = .int ∧ u = .int then some .int else none
  | .lt | .gt | .le | .ge => if t = u ∧ (t = .float ∨ t = .int) then some .bool else none
  | .eq | .ne => if t = u ∧ (isNumeric t ∨ t = .bool) then some .bool else none
  | .and | .or => if t = .bool ∧ u = .bool then some .bool else none

/-- The type of what is assigned: the right side itself, or what the operator of a
compound assignment makes of both sides. -/
def assignedType? (op : AssignOp) (t u : ShaderType) : Option ShaderType :=
  match op with
  | .set => some u
  | .add => arithmeticType? .add t u
  | .sub => arithmeticType? .sub t u
  | .mul => arithmeticType? .mul t u
  | .div => arithmeticType? .div t u

/-! ## Members and elements -/

/-- The letters for the components of a vector, in order. -/
def componentSets : List (List Char) :=
  [['x', 'y', 'z', 'w'], ['r', 'g', 'b', 'a'], ['s', 't', 'p', 'q']]

/-- One to four letters of one set, each for a component that a vector of that rank
has. -/
def isSwizzle (rank : Nat) (cs : List Char) : Bool :=
  !cs.isEmpty && cs.length ≤ 4 &&
    componentSets.any fun letters => cs.all fun c => (letters.take rank).contains c

def memberType? (m : String) : ShaderType → Option ShaderType
  | .vec n =>
      if isSwizzle n.toNat m.toList then some (.vector (UInt8.ofNat m.toList.length)) else none
  | _ => none

def elementType? : ShaderType → ShaderType → Option ShaderType
  | .vec _, .int => some .float
  | .mat n, .int => some (.vec n)
  | _, _ => none

/-! ## Calls -/

def textureType? : List ShaderType → Option ShaderType
  | [.sampler2d, .vec n] => if n = 2 then some (.vec 4) else none
  | [.samplerCube, .vec n] => if n = 3 then some (.vec 4) else none
  | _ => none

/-- `count` arguments of one generic type, which `result` turns into the result. -/
def genericType? (count : Nat) (result : ShaderType → ShaderType) :
    List ShaderType → Option ShaderType
  | [] => none
  | t :: ts =>
      if isGeneric t ∧ ts = List.replicate (count - 1) t then some (result t) else none

def crossType? : List ShaderType → Option ShaderType
  | [.vec n, .vec m] => if n = 3 ∧ m = 3 then some (.vec 3) else none
  | _ => none

/-- Bounds are scalars or of the clamped type. -/
def clampType? : List ShaderType → Option ShaderType
  | [t, u, v] => if isGeneric t ∧ u = v ∧ (u = t ∨ u = .float) then some t else none
  | _ => none

def mixType? : List ShaderType → Option ShaderType
  | [t, u, v] => if isGeneric t ∧ t = u ∧ (v = t ∨ v = .float) then some t else none
  | _ => none

/-- How many components an argument gives to a constructor. -/
def components? : ShaderType → Option Nat
  | .float | .int | .bool => some 1
  | .vec n => some n.toNat
  | _ => none

def totalComponents? : List ShaderType → Option Nat
  | [] => some 0
  | t :: ts =>
      match components? t, totalComponents? ts with
      | some n, some m => some (n + m)
      | _, _ => none

/-- A constructor takes one scalar for all components, or as many components as the
type has. -/
def constructedType? (t : ShaderType) (count : Nat) (args : List ShaderType) :
    Option ShaderType :=
  match totalComponents? args with
  | some total => if total = 1 ∨ total = count then some t else none
  | none => none

def callType? (f : String) (args : List ShaderType) : Option ShaderType :=
  match f with
  | "texture" => textureType? args
  | "normalize" => genericType? 1 id args
  | "length" => genericType? 1 (fun _ => .float) args
  | "dot" => genericType? 2 (fun _ => .float) args
  | "pow" => genericType? 2 id args
  | "cross" => crossType? args
  | "mix" => mixType? args
  | "clamp" => clampType? args
  | "vec2" => constructedType? (.vec 2) 2 args
  | "vec3" => constructedType? (.vec 3) 3 args
  | "vec4" => constructedType? (.vec 4) 4 args
  | "mat2" => constructedType? (.mat 2) 4 args
  | "mat3" => constructedType? (.mat 3) 9 args
  | "mat4" => constructedType? (.mat 4) 16 args
  | _ => none

end Shaderwright.Glsl

namespace Shaderwright.Expr

open Glsl

/-! ## Trees -/

/-- What can stand on the left of an assignment: a name, its elements and its
components, none of them twice. -/
def isTarget : Expr → Bool
  | .ident _ => true
  | .member base m => base.isTarget && decide m.toList.Nodup
  | .index base _ => base.isTarget
  | _ => false

mutual

def typeOf? (Γ : String → Option ShaderType) : Expr → Option ShaderType
  | .literal t => literalType? t
  | .raw _ => none
  | .ident x => Γ x
  | .unary op x => (x.typeOf? Γ).bind (unaryType? op)
  | .binary op l r =>
      match l.typeOf? Γ, r.typeOf? Γ with
      | some t, some u => binaryType? op t u
      | _, _ => none
  | .call f args => (argTypes? Γ args).bind (callType? f)
  | .member base m => (base.typeOf? Γ).bind (memberType? m)
  | .index base position =>
      match base.typeOf? Γ, position.typeOf? Γ with
      | some t, some u => elementType? t u
      | _, _ => none
  | .assign op target value =>
      match target.typeOf? Γ, value.typeOf? Γ with
      | some t, some u =>
          if target.isTarget = true ∧ assignedType? op t u = some t then some t else none
      | _, _ => none

def argTypes? (Γ : String → Option ShaderType) : List Expr → Option (List ShaderType)
  | [] => some []
  | x :: xs =>
      match x.typeOf? Γ, argTypes? Γ xs with
      | some t, some ts => some (t :: ts)
      | _, _ => none

end

section
variable {Γ Δ : String → Option ShaderType}

mutual

/-- Only the types of the names in a tree count. -/
theorem typeOf?_congr : ∀ (e : Expr), (∀ x ∈ e.names, Γ x = Δ x) → e.typeOf? Γ = e.typeOf? Δ
  | .literal _, _ | .raw _, _ => rfl
  | .ident x, h => h x (by simp [names])
  | .unary op x, h => by
      rw [typeOf?, typeOf?, typeOf?_congr x h]
  | .binary op l r, h => by
      simp only [names, List.forall_mem_append] at h
      rw [typeOf?, typeOf?, typeOf?_congr l h.1, typeOf?_congr r h.2]
  | .call f args, h => by
      rw [typeOf?, typeOf?, argTypes?_congr args h]
  | .member base m, h => by
      rw [typeOf?, typeOf?, typeOf?_congr base h]
  | .index base position, h => by
      simp only [names, List.forall_mem_append] at h
      rw [typeOf?, typeOf?, typeOf?_congr base h.1, typeOf?_congr position h.2]
  | .assign op target value, h => by
      simp only [names, List.forall_mem_append] at h
      rw [typeOf?, typeOf?, typeOf?_congr target h.1, typeOf?_congr value h.2]

theorem argTypes?_congr : ∀ (es : List Expr), (∀ x ∈ argNames es, Γ x = Δ x) →
    argTypes? Γ es = argTypes? Δ es
  | [], _ => rfl
  | e :: es, h => by
      simp only [argNames, List.forall_mem_append] at h
      rw [argTypes?, argTypes?, typeOf?_congr e h.1, argTypes?_congr es h.2]

end

end

/-- A vector is not cut short to fit its target. -/
example :
    let Γ := fun x => if x = "v" then some (ShaderType.vec 3) else some (.vec 4)
    typeOf? Γ (.assign .set (.ident "v") (.ident "w")) = none ∧
      typeOf? Γ (.assign .set (.ident "v") (.member (.ident "w") "xyz")) = some (.vec 3) := by
  decide +kernel

end Shaderwright.Expr

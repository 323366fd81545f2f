import Shaderwright.Expr.Basic

/-!
# Variables

A variable has a role, a type, a name, an array size (zero for a scalar), an
optional semantic slot and, if it is a block, members. The members of a block are
kept in the order of their names; adding one under a name that is taken replaces
it. A change never touches the name.
-/

namespace Shaderwright

inductive ShaderType where
  /-- Not yet assigned; its name is empty. -/
  | unset
  | float
  | vec (rank : UInt8)
  | mat (rank : UInt8)
  | int
  | short
  | bool
  | sampler2d
  | samplerCube
  | samplerCubeShadow
  /-- A built-in block, described by the members of the variable. -/
  | struct
deriving DecidableEq, Repr, Inhabited

namespace ShaderType

/-- The vector type of a rank; rank one is the scalar. -/
def vector (rank : UInt8) : ShaderType :=
  if rank = 1 then .float else .vec rank

/-- The sampler for textures of a rank; rank three is the cube map. -/
def sampler (rank : UInt8) : ShaderType :=
  if rank = 3 then .samplerCube else .sampler2d

def isSampler : ShaderType → Bool
  | .sampler2d | .samplerCube | .samplerCubeShadow => true
  | _ => false

/-- The type as it is written in a declaration. -/
def name : ShaderType → String
  | .unset => ""
  | .float => "float"
  | .vec rank => "vec" ++ Nat.repr rank.toNat
  | .mat rank => "mat" ++ Nat.repr rank.toNat
  | .int => "int"
  | .short => "short"
  | .bool => "bool"
  | .sampler2d => "sampler2D"
  | .samplerCube => "samplerCube"
  | .samplerCubeShadow => "samplerCubeShadow"
  | .struct => "struct"

/-- The type as one capitalised word with its rank. -/
def label : ShaderType → String
  | .unset => "Unset"
  | .float => "Float"
  | .vec rank => "Vec(" ++ Nat.repr rank.toNat ++ ")"
  | .mat rank => "Mat(" ++ Nat.repr rank.toNat ++ ")"
  | .int => "Int"
  | .short => "Short"
  | .bool => "Bool"
  | .sampler2d => "Sampler2d"
  | .samplerCube => "SamplerCube"
  | .samplerCubeShadow => "SamplerCubeShadow"
  | .struct => "Struct"

end ShaderType

/-- How a variable is declared. -/
inductive Role where
  | input
  | output
  | inout
  /-- Constant over a draw. -/
  | uniform
  /-- Declared inside the main function. -/
  | local
  /-- Never declared, as a member of a block. -/
  | none
deriving DecidableEq, Repr, Inhabited

namespace Role

def all : List Role := [.input, .output, .inout, .uniform, .local, .none]

/-- The role as one capitalised word. -/
def label : Role → String
  | .input => "In"
  | .output => "Out"
  | .inout => "InOut"
  | .uniform => "Uniform"
  | .local => "Local"
  | .none => "None"

end Role

/-- What a role puts before the type, if the variable is declared at all. -/
def Role.qualifier? : Role → Option String
  | .input => some "in "
  | .output => some "out "
  | .inout => some "inout "
  | .uniform => some "uniform "
  | .local => some ""
  | .none => Option.none

/-- What a variable carries from stage to stage, whatever it is called. -/
inductive Slot where
  | position
  | normal
  | tangent
  | binormal
  | texCoord
  | color
deriving DecidableEq, Repr, Inhabited

namespace Slot

def all : List Slot := [.position, .normal, .tangent, .binormal, .texCoord, .color]

/-- The slot as one capitalised word. -/
def label : Slot → String
  | .position => "Position"
  | .normal => "Normal"
  | .tangent => "Tangent"
  | .binormal => "Binormal"
  | .texCoord => "TexCoord"
  | .color => "Color"

/-- The word that the names of variables with this slot begin with. -/
def stem : Slot → String
  | .position => "position"
  | .normal => "normal"
  | .tangent => "tangent"
  | .binormal => "binormal"
  | .texCoord => "texcoord"
  | .color => "color"

end Slot

structure Variable where
  role : Role
  ty : ShaderType
  name : String
  arraySize : Nat := 0
  slot : Option Slot := none
  members : List Variable := []
deriving Repr, Inhabited

namespace Variable

/-- A scalar without slot or members. -/
def plain (role : Role) (ty : ShaderType) (name : String) : Variable :=
  { role, ty, name }

/-! ## Equality -/

mutual

/-- Equality of variables, member by member. -/
def same : Variable → Variable → Bool
  | ⟨r, t, n, a, s, ms⟩, ⟨r', t', n', a', s', ms'⟩ =>
      decide (r = r') && decide (t = t') && n == n' && a == a' && decide (s = s')
        && sameMembers ms ms'

def sameMembers : List Variable → List Variable → Bool
  | [], [] => true
  | v :: vs, w :: ws => same v w && sameMembers vs ws
  | _, _ => false

end

mutual

theorem same_iff : ∀ v w : Variable, same v w = true ↔ v = w
  | ⟨r, t, n, a, s, ms⟩, ⟨r', t', n', a', s', ms'⟩ => by
      simp [same, sameMembers_iff ms ms', and_assoc]

theorem sameMembers_iff : ∀ vs ws : List Variable, sameMembers vs ws = true ↔ vs = ws
  | [], ws => by cases ws <;> simp [sameMembers]
  | v :: vs, ws => by
      cases ws with
      | nil => simp [sameMembers]
      | cons w ws => simp [sameMembers, same_iff v w, sameMembers_iff vs ws]

end

instance : DecidableEq Variable := fun v w =>
  decidable_of_iff (same v w = true) (same_iff v w)

/-! ## Changes -/

/-- Puts a member in its place by name, instead of one of the same name. -/
def insertMember (m : Variable) : List Variable → List Variable
  | [] => [m]
  | v :: vs =>
      if m.name = v.name then m :: vs
      else if m.name < v.name then m :: v :: vs
      else v :: insertMember m vs

/-- A change to anything but the name. -/
inductive Change where
  | role (role : Role)
  | ty (ty : ShaderType)
  | array (size : Nat)
  | slot (slot : Option Slot)
  /-- Adds a member; only a block takes it. -/
  | member (member : Variable)
deriving Repr

def change (v : Variable) : Change → Variable
  | .role role => { v with role }
  | .ty ty => { v with ty }
  | .array size => { v with arraySize := size }
  | .slot slot => { v with slot }
  | .member m =>
      if v.ty = .struct then { v with members := insertMember m v.members } else v

def changeAll (v : Variable) (changes : List Change) : Variable :=
  changes.foldl change v

theorem name_change (v : Variable) (c : Change) : (v.change c).name = v.name := by
  cases c <;> simp only [change]
  split <;> rfl

theorem name_changeAll (v : Variable) (cs : List Change) : (v.changeAll cs).name = v.name := by
  induction cs generalizing v with
  | nil => rfl
  | cons c cs ih => simpa [changeAll, name_change] using ih (v.change c)

/-! ## Text -/

/-- The declaration without its semicolon; empty for what is never declared. -/
def declaration (v : Variable) : String :=
  match v.role.qualifier? with
  | none => ""
  | some qualifier =>
      qualifier ++ v.ty.name ++ " " ++ v.name
        ++ if 0 < v.arraySize then "[" ++ Nat.repr v.arraySize ++ "]" else ""

/-- The variable as an operand. -/
def toExpr (v : Variable) : Expr := .ident v.name

instance : Coe Variable Expr := ⟨toExpr⟩

/-- Member access. A block answers with the member it declares under the name;
anything else becomes a dotted access. -/
def member (v : Variable) (name : String) : Expr :=
  match if v.ty = .struct then v.members.find? fun m => m.name = name else none with
  | some m => m.toExpr
  | none => .member v.toExpr name

/-- An index into a variable that is no array. -/
structure NotAnArray where
  name : String
deriving DecidableEq, Repr

def NotAnArray.message (e : NotAnArray) : String :=
  "indexed access on non-array variable '" ++ e.name ++ "'"

/-- Element access, for arrays only. -/
def element (v : Variable) (position : Expr) : Except NotAnArray Expr :=
  if 0 < v.arraySize then .ok (.index v.toExpr position) else .error ⟨v.name⟩

end Variable

/-- What an expression is composed from: a plain expression, or a variable, whose
members and elements are looked up in its declaration. -/
inductive Term where
  | expr (e : Expr)
  | var (v : Variable)
deriving Repr, Inhabited

namespace Term

def toExpr : Term → Expr
  | .expr e => e
  | .var v => v.toExpr

def member (name : String) : Term → Expr
  | .expr e => .member e name
  | .var v => v.member name

def element (position : Expr) : Term → Except Variable.NotAnArray Expr
  | .expr e => .ok (.index e position)
  | .var v => v.element position

end Term

end Shaderwright

/-!
# Vectors and matrices

Single-precision vectors and column-major matrices. The order of the operations
is part of the definition: no sum is reassociated and no product is fused.
-/

namespace Shaderwright

structure Vec2 where
  x : Float32
  y : Float32

structure Vec3 where
  x : Float32
  y : Float32
  z : Float32

structure Vec4 where
  x : Float32
  y : Float32
  z : Float32
  w : Float32

/-- Three columns. -/
structure Mat3 where
  x : Vec3
  y : Vec3
  z : Vec3

/-- Four columns. -/
structure Mat4 where
  x : Vec4
  y : Vec4
  z : Vec4
  w : Vec4

namespace Vec2

def toList (v : Vec2) : List Float32 := [v.x, v.y]

end Vec2

namespace Vec3

def toList (v : Vec3) : List Float32 := [v.x, v.y, v.z]

def unitX : Vec3 := ⟨1, 0, 0⟩

def unitY : Vec3 := ⟨0, 1, 0⟩

def unitZ : Vec3 := ⟨0, 0, 1⟩

/-- The unit vectors the other way, with zeros of either sign as they are given. -/
def minusX : Vec3 := ⟨-1, 0, 0⟩

def minusY : Vec3 := ⟨0, -1, 0⟩

def minusZ : Vec3 := ⟨0, 0, -1⟩

def add (a b : Vec3) : Vec3 := ⟨a.x + b.x, a.y + b.y, a.z + b.z⟩

def sub (a b : Vec3) : Vec3 := ⟨a.x - b.x, a.y - b.y, a.z - b.z⟩

def scale (a : Vec3) (k : Float32) : Vec3 := ⟨a.x * k, a.y * k, a.z * k⟩

def dot (a b : Vec3) : Float32 := a.x * b.x + a.y * b.y + a.z * b.z

def cross (a b : Vec3) : Vec3 :=
  ⟨a.y * b.z - b.y * a.z, a.z * b.x - b.z * a.x, a.x * b.y - b.x * a.y⟩

/-- The vector over its length; of the zero vector, no numbers. -/
def normalize (v : Vec3) : Vec3 := v.scale (1 / (v.dot v).sqrt)

end Vec3

namespace Vec4

def toList (v : Vec4) : List Float32 := [v.x, v.y, v.z, v.w]

/-- The first three components. -/
def xyz (v : Vec4) : Vec3 := ⟨v.x, v.y, v.z⟩

end Vec4

namespace Mat3

/-- The components column by column. -/
def toList (m : Mat3) : List Float32 := m.x.toList ++ m.y.toList ++ m.z.toList

/-- The transpose of the inverse; of a singular matrix, infinities and no
numbers. -/
def inverseTranspose (m : Mat3) : Mat3 :=
  let c0 := m.y.cross m.z
  let c1 := m.z.cross m.x
  let c2 := m.x.cross m.y
  let d := 1 / m.z.dot c2
  ⟨c0.scale d, c1.scale d, c2.scale d⟩

end Mat3

namespace Mat4

/-- The components column by column. -/
def toList (m : Mat4) : List Float32 :=
  m.x.toList ++ m.y.toList ++ m.z.toList ++ m.w.toList

/-- The upper left part. -/
def rotation (m : Mat4) : Mat3 := ⟨m.x.xyz, m.y.xyz, m.z.xyz⟩

/-- The right-handed view from `eye` toward `center`. -/
def lookAt (eye center up : Vec3) : Mat4 :=
  let f := (center.sub eye).normalize
  let s := (f.cross up).normalize
  let u := s.cross f
  ⟨⟨s.x, u.x, -f.x, 0⟩, ⟨s.y, u.y, -f.y, 0⟩, ⟨s.z, u.z, -f.z, 0⟩,
    ⟨-(eye.dot s), -(eye.dot u), eye.dot f, 1⟩⟩

/-- The right-handed perspective with depth from -1 to 1. -/
def perspective (fovY aspect near far : Float32) : Mat4 :=
  let inv := 1 / (near - far)
  let t := 1 / (0.5 * fovY).tan
  ⟨⟨t / aspect, 0, 0, 0⟩, ⟨0, t, 0, 0⟩, ⟨0, 0, (near + far) * inv, -1⟩,
    ⟨0, 0, 2 * near * far * inv, 0⟩⟩

end Mat4

end Shaderwright

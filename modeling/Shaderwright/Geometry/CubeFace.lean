import Shaderwright.Geometry.Vector
import Shaderwright.Shader.Feature

/-!
# Faces of a shadow cube

A shadow store is filled face by face, each face with a camera of its own.
-/

namespace Shaderwright

inductive CubeFace where
  | positiveX
  | negativeX
  | positiveY
  | negativeY
  | positiveZ
  | negativeZ
deriving DecidableEq, Repr

namespace CubeFace

/-- The faces in the order of the cube map. -/
def all : List CubeFace :=
  [.positiveX, .negativeX, .positiveY, .negativeY, .positiveZ, .negativeZ]

def label : CubeFace → String
  | .positiveX => "PositiveX"
  | .negativeX => "NegativeX"
  | .positiveY => "PositiveY"
  | .negativeY => "NegativeY"
  | .positiveZ => "PositiveZ"
  | .negativeZ => "NegativeZ"

def forward : CubeFace → Vec3
  | .positiveX => .unitX
  | .negativeX => .minusX
  | .positiveY => .unitY
  | .negativeY => .minusY
  | .positiveZ => .unitZ
  | .negativeZ => .minusZ

def up : CubeFace → Vec3
  | .positiveX | .negativeX | .positiveZ | .negativeZ => .minusY
  | .positiveY => .unitZ
  | .negativeY => .minusZ

def view (face : CubeFace) (position : Vec3) : Mat4 :=
  .lookAt position (position.add face.forward) face.up

/-- A quarter turn, in single precision. -/
def rightAngle : Float32 := 1.5707964

/-- A square frustum of a right angle that ends at the far plane of the shadow
test. -/
def projection (near : Float32) : Mat4 := .perspective rightAngle 1 near shadowFarPlane

end CubeFace

end Shaderwright

import Shaderwright.Stage
import Shaderwright.Geometry.Vector

/-!
# Devices

The part of a graphics interface that the program cache needs. Handles are opaque
to the cache; the device decides what they are. A failed build comes with the
device's log.
-/

namespace Shaderwright

inductive TextureTarget where
  | texture2d
  | cubeMap
deriving DecidableEq, Repr

def TextureTarget.label : TextureTarget → String
  | .texture2d => "Texture2d"
  | .cubeMap => "CubeMap"

/-- A value written to a uniform location. -/
inductive UniformValue where
  | float (x : Float32)
  | vec2 (v : Vec2)
  | vec3 (v : Vec3)
  | vec4 (v : Vec4)
  | mat3 (m : Mat3)
  | mat4 (m : Mat4)
  | int (n : Int32)

/-- Every operation takes the state of the device and gives the next one. -/
class Device (δ : Type) where
  StageHandle : Type
  ProgramHandle : Type
  Location : Type
  Texture : Type
  compile : δ → Stage → String → Except String StageHandle × δ
  /-- Links stages, with attribute `i` of the list at vertex location `i`. -/
  link : δ → List StageHandle → List String → Except String ProgramHandle × δ
  deleteStage : δ → StageHandle → δ
  useProgram : δ → ProgramHandle → δ
  locate : δ → ProgramHandle → String → Option Location × δ
  write : δ → Location → UniformValue → δ
  bindTexture : δ → UInt32 → TextureTarget → Texture → δ

end Shaderwright

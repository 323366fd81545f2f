import Shaderwright.Shader.Feature
import Shaderwright.Text.Blank

/-!
# Presets

Ready-made compositions, one shader per stage in pipeline order.
-/

namespace Shaderwright

inductive Preset where
  /-- Textured, normal mapped surface with variance shadows. -/
  | basicLit
  /-- The same surface with the hard shadow test. -/
  | hardShadowLit
  /-- Positions only, for filling a shadow store. -/
  | shadowDepth
deriving DecidableEq, Repr

namespace Preset

def all : List Preset := [.basicLit, .hardShadowLit, .shadowDepth]

def name : Preset → String
  | .basicLit => "basic-lit"
  | .hardShadowLit => "hard-shadow-lit"
  | .shadowDepth => "shadow-depth"

/-- The preset as one capitalised word. -/
def label : Preset → String
  | .basicLit => "BasicLit"
  | .hardShadowLit => "HardShadowLit"
  | .shadowDepth => "ShadowDepth"

def description : Preset → String
  | .basicLit => "textured + normal mapped + variance shadows + Blinn-Phong"
  | .hardShadowLit => "textured + normal mapped + hard-compare shadows + Blinn-Phong"
  | .shadowDepth => "world transform only; writes white for depth/moment passes"

/-- The preset of exactly that name. -/
def ofName? (name : String) : Option Preset := all.find? fun p => p.name = name

/-- A text that names no preset, as it was given. -/
structure Unknown where
  text : String
deriving DecidableEq, Repr

def Unknown.message (u : Unknown) : String :=
  "unknown preset '" ++ u.text ++ "'; expected one of " ++ Text.join ", " (all.map name)

/-- Reads a preset, whatever the case, the blanks around it, and with underscores
for hyphens. -/
def parse (s : String) : Except Unknown Preset :=
  let word := String.ofList
    ((Text.lower (Text.trim s)).toList.map fun c => if c = '_' then '-' else c)
  match ofName? word with
  | some p => .ok p
  | none => .error ⟨s⟩

/-! ## Stages -/

/-- A vertex stage that puts out all a lit surface needs, and a fragment stage
that shades it under the given shadow. -/
def litSurface (stem : String) (shadow : Feature) : List Shader :=
  let vertex := (Shader.empty (stem ++ "_vsh") .vertex).extendAll
    [ .vertexInputs .all, .transform, .computeBinormal, .view, .project,
      .passThrough "texcoord_in", .emitPosition, .emitClipPosition ]
  let fragment := (Shader.empty (stem ++ "_fsh") .fragment).extendAll
    [.chainFrom vertex, .colorTextured, .normalMapped, shadow, .blinn]
  [vertex, fragment]

def depthPass : List Shader :=
  let vertex := (Shader.empty "shadow_depth_vsh" .vertex).extendAll
    [ .vertexInputs { position := true, normal := false, tangent := false, texCoord := false },
      .transform, .emitPosition, .view, .project, .emitClipPosition ]
  let fragment := (Shader.empty "shadow_depth_fsh" .fragment).extendAll
    [.chainFrom vertex, .colorWhite]
  [vertex, fragment]

/-- The stages in pipeline order. -/
def shaders : Preset → List Shader
  | .basicLit => litSurface "basic" .shadowMappedVariance
  | .hardShadowLit => litSurface "hard_shadow" .shadowMapped
  | .shadowDepth => depthPass

end Preset

end Shaderwright

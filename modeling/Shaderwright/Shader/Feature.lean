import Shaderwright.Expr.Compose
import Shaderwright.Shader.Basic

/-!
# Features

A feature adds one capability to a stage. It looks up what it builds on, and
refuses if that is missing; otherwise it comes down to a list of edits, which are
declarations and statements in the order in which they are made. A refused
feature leaves the shader as it was.
-/

namespace Shaderwright

/-- The vertex attributes a first stage takes in. -/
structure VertexInputs where
  position : Bool
  normal : Bool
  tangent : Bool
  texCoord : Bool
deriving DecidableEq, Repr

namespace VertexInputs

/-- Reads the four low bits; higher ones mean nothing. -/
def ofBits (bits : Nat) : VertexInputs where
  position := bits.testBit 0
  normal := bits.testBit 1
  tangent := bits.testBit 2
  texCoord := bits.testBit 3

def all : VertexInputs := ⟨true, true, true, true⟩

/-- The chosen slots, in the order of their locations. -/
def slots (i : VertexInputs) : List Slot :=
  (if i.position then [.position] else []) ++ (if i.normal then [.normal] else [])
    ++ (if i.tangent then [.tangent] else []) ++ (if i.texCoord then [.texCoord] else [])

end VertexInputs

/-- Attribute names in the order of their locations. -/
def defaultAttributes : List String := ["position", "normal", "tangent", "texcoord"]

/-- World distances are divided by this before the hard shadow test. -/
def shadowFarPlane : Float32 := 100.0

/-- How much nearer an occluder has to be to cast a shadow. -/
def shadowEpsilon : Float32 := 0.001

/-- What is left of the light in a hard shadow. -/
def shadowOccludedLight : Float32 := 0.5

/-- The shadow store keeps distances divided by this. -/
def momentScale : Float32 := 1000.0

def specularPower : Float32 := 16.0

inductive Feature where
  /-- Declares the chosen vertex attributes. -/
  | vertexInputs (inputs : VertexInputs)
  /-- Takes in every output of the stage before. -/
  | chainFrom (previous : Shader)
  /-- Moves the position into world space and rotates normal and tangent. -/
  | transform
  | view
  | project
  /-- Puts out the cross product of normal and tangent. -/
  | computeBinormal
  /-- Puts an input out unchanged. -/
  | passThrough (pattern : String)
  | emitPosition
  | emitClipPosition
  | colorWhite
  | colorTextured
  /-- Perturbs the normal by a texture in tangent space. -/
  | normalMapped
  /-- Point light with diffuse and specular terms. -/
  | blinn
  /-- Shadow by comparing distances. -/
  | shadowMapped
  /-- Shadow by the variance of the stored distances. -/
  | shadowMappedVariance
deriving Repr, DecidableEq

/-- The name under which a refused feature is reported. -/
def Feature.name : Feature → String
  | .vertexInputs _ => "declare_vertex_inputs"
  | .chainFrom _ => "chain_from"
  | .transform => "transform"
  | .view => "view"
  | .project => "project"
  | .computeBinormal => "compute_binormal"
  | .passThrough _ => "pass_through"
  | .emitPosition => "emit_position_output"
  | .emitClipPosition => "emit_clip_position"
  | .colorWhite => "color_white"
  | .colorTextured => "color_textured"
  | .normalMapped => "normal_mapped"
  | .blinn => "blinn"
  | .shadowMapped => "shadow_mapped"
  | .shadowMappedVariance => "shadow_mapped_variance"

/-! ## Edits -/

inductive Edit where
  /-- Sees to it that the variable is there and applies the changes. -/
  | declare (storage : Storage) (name : String) (changes : List Variable.Change)
  | statement (e : Expr)
  /-- One statement under a condition. -/
  | conditional (condition body : Expr)
deriving Repr

def Shader.edit (s : Shader) : Edit → Shader
  | .declare storage name changes => s.put storage name changes
  | .statement e => s.next e
  | .conditional condition body => ((s.openIf condition).next body).closeIf

def Shader.editAll (s : Shader) (edits : List Edit) : Shader := edits.foldl Shader.edit s

namespace Feature

/-! ## Names -/

def posTransformed : String := "l_pos_trans"

def posViewed : String := "l_pos_view"

def posProjected : String := "l_pos_proj"

/-- The output of a stage for a slot; the colour alone has no suffix. -/
def outputName (stage : Stage) : Slot → String
  | .color => Slot.color.stem
  | slot => slot.stem ++ "_" ++ stage.suffix

def input (name : String) (changes : List Variable.Change) : Edit :=
  .declare .input name changes

def parameter (name : String) (ty : ShaderType) : Edit := .declare .parameter name [.ty ty]

def localVar (name : String) (ty : ShaderType) : Edit := .declare .local name [.ty ty]

def output (stage : Stage) (slot : Slot) (ty : ShaderType) : Edit :=
  .declare .output (outputName stage slot) [.ty ty, .slot (some slot)]

/-- The changes that give a variable the shape of another. -/
def shapeOf (v : Variable) : List Variable.Change :=
  [.ty v.ty, .array v.arraySize]
    ++ match v.slot with
      | some slot => [.slot (some slot)]
      | none => []

/-! ## What a feature builds on -/

def requireSlot (s : Shader) (f : Feature) (slot : Slot) : Except Fault Variable :=
  match s.slotInput? slot with
  | some v => .ok v
  | none => .error (.noSlot f.name s.name slot)

def requireLocal (s : Shader) (f : Feature) (name : String) : Except Fault Variable :=
  match s.find? .local name with
  | some v => .ok v
  | none => .error (.noLocal f.name s.name name)

/-- What the stage put out for a slot already, else its input for the slot. -/
def produced (s : Shader) (f : Feature) (slot : Slot) : Except Fault Variable :=
  match findLast? (fun v => v.slot = some slot) s.outputs with
  | some v => .ok v
  | none => requireSlot s f slot

/-! ## What a feature adds -/

open Shaderwright.Expr (ident call set increase scale ofFloat32 texture)

def vertexInputsEdits (inputs : VertexInputs) : List Edit :=
  inputs.slots.map fun slot => input (slot.stem ++ "_in") [.ty (.vector 3), .slot (some slot)]

def chainFromEdits (previous : Shader) : List Edit :=
  previous.outputs.map fun o => input o.name (shapeOf o)

/-- The input for a slot, rotated into the output for it. -/
def rotated (s : Shader) (slot : Slot) : List Edit :=
  match s.slotInput? slot with
  | none => []
  | some source =>
      [ output s.stage slot (.vec 3),
        parameter "u_normal_matrix" (.mat 3),
        .statement (set (ident (outputName s.stage slot))
          (ident "u_normal_matrix" * source.toExpr)) ]

/-- Full light and the direction to it, which both shadows start from. -/
def shadowPrologue (position : Variable) : List Edit :=
  [ localVar "l_lit" .float,
    localVar "l_light_dir" (.vec 3),
    parameter "u_shadow_cube" .samplerCube,
    parameter "u_light_position" (.vec 3),
    .statement (set (ident "l_lit") (ofFloat32 1.0)),
    .statement (set (ident "l_light_dir")
      (position.member "xyz" - ident "u_light_position")) ]

/-- The light that has to be scaled by a shadow, if one was computed. -/
def dimmed (s : Shader) (intensity : Expr) : List Edit :=
  match s.find? .local "l_lit" with
  | some lit => [.statement (scale intensity lit.toExpr)]
  | none => []

def transformEdits (s : Shader) (position : Variable) : List Edit :=
  [ localVar posTransformed (.vec 4),
    parameter "u_world_matrix" (.mat 4),
    .statement (set (ident posTransformed)
      (ident "u_world_matrix" * call "vec4" [position.toExpr, ofFloat32 1.0])) ]
    ++ rotated s .normal ++ rotated s .tangent

/-- One space further: the matrix applied to what the space before left. -/
def projectedEdits (target matrix : String) (source : Variable) : List Edit :=
  [ localVar target (.vec 4),
    parameter matrix (.mat 4),
    .statement (set (ident target) (ident matrix * source.toExpr)) ]

def binormalEdits (s : Shader) (normal tangent : Variable) : List Edit :=
  [ output s.stage .binormal (.vec 3),
    .statement (set (ident (outputName s.stage .binormal))
      (normal.toExpr.cross tangent.toExpr)) ]

/-- The output that carries an input on: the part before the first underscore,
with the suffix of the stage. -/
def forwardedName (s : Shader) (source : Variable) : String :=
  let stem :=
    match Text.splitAt? '_' source.name.toList with
    | some (before, _) => String.ofList before
    | none => source.name
  stem ++ "_" ++ s.suffix

def passThroughEdits (s : Shader) (source : Variable) : List Edit :=
  [ .declare .output (forwardedName s source) (shapeOf source),
    .statement (set (ident (forwardedName s source)) source.toExpr) ]

def emitPositionEdits (s : Shader) (transformed : Variable) : List Edit :=
  [ output s.stage .position (.vec 4),
    .statement (set (ident (outputName s.stage .position)) transformed.toExpr) ]

def emitClipPositionEdits (clip projected : Variable) : List Edit :=
  [ .statement (set clip.toExpr projected.toExpr) ]

def colorWhiteEdits (s : Shader) : List Edit :=
  [ output s.stage .color (.vec 4),
    .statement (set (ident (outputName s.stage .color))
      (Expr.vec4 (ofFloat32 1.0) (ofFloat32 1.0) (ofFloat32 1.0) (ofFloat32 1.0))) ]

def colorTexturedEdits (s : Shader) (texcoord : Variable) : List Edit :=
  [ parameter "u_color_sampler" (.sampler 2),
    output s.stage .color (.vec 4),
    .statement (set (ident (outputName s.stage .color))
      (texture (ident "u_color_sampler") (texcoord.member "xy"))) ]

def normalMappedEdits (texcoord normal tangent binormal frontFacing : Variable) : List Edit :=
  [ parameter "u_normal_sampler" (.sampler 2),
    localVar "l_normal" (.vec 3),
    localVar "l_basis" (.mat 3),
    localVar "l_norm_sample" (.vec 3),
    .statement (set (ident "l_basis")
      (Expr.mat3 tangent.toExpr binormal.toExpr normal.toExpr)),
    .statement (set (ident "l_norm_sample")
      ((texture (ident "u_normal_sampler") (texcoord.member "xy")).member "xyz"
        * ofFloat32 2.0 - ofFloat32 1.0)),
    .statement (set (ident "l_normal")
      (ident "l_basis" * ident "l_norm_sample" * ofFloat32 (-1.0))),
    .conditional frontFacing.toExpr (scale (ident "l_normal") (ofFloat32 (-1.0))) ]

/-- The normal to light with: the one a normal map left, else the normalised
input. -/
def litNormal (s : Shader) (normal : Variable) : List Edit :=
  match s.find? .local "l_normal" with
  | some _ => []
  | none =>
      [ localVar "l_normal" (.vec 3),
        .statement (set (ident "l_normal") normal.toExpr.normalize) ]

def blinnDeclarations : List Edit :=
  [ parameter "u_specular_sampler" (.sampler 2),
    parameter "u_light_position" (.vec 3),
    parameter "u_light_power" (.vec 3),
    parameter "u_view_position" (.vec 3),
    parameter "u_light_ambience" .float,
    localVar "l_view_dir" (.vec 3),
    localVar "l_light_color" (.vec 3),
    localVar "l_half" (.vec 3),
    localVar "l_intensity" .float,
    localVar "l_light_dir" (.vec 3),
    localVar "l_light_dist" .float,
    localVar "l_ndh" .float ]

/-- The directions to viewer and light, and the diffuse intensity. -/
def diffuseTerm (position : Variable) : List Edit :=
  let world := position.member "xyz"
  let lightDir := ident "l_light_dir"
  [ .statement (set (ident "l_view_dir") (ident "u_view_position" - world).normalize),
    .statement (set lightDir (ident "u_light_position" - world)),
    .statement (set (ident "l_light_dist") lightDir.length),
    .statement (set lightDir lightDir.normalize),
    .statement (set (ident "l_intensity") ((ident "l_normal").dot lightDir).saturate) ]

/-- What the light gives off at an intensity. -/
def lightShare : Expr :=
  ident "l_intensity" * ident "u_light_power" / ident "l_light_dist"

/-- The ambient and diffuse light, and the specular intensity. -/
def specularTerm (texcoord : Variable) : List Edit :=
  let intensity := ident "l_intensity"
  let lightColor := ident "l_light_color"
  [ .statement (set (ident "l_half") (ident "l_light_dir" + ident "l_view_dir").normalize),
    .statement (set lightColor (ident "u_light_power" * ident "u_light_ambience")),
    .statement (increase lightColor lightShare),
    .statement (set (ident "l_ndh") ((ident "l_normal").dot (ident "l_half"))),
    .statement (set intensity ((ident "l_ndh").saturate.pow (ofFloat32 specularPower))),
    .statement (scale intensity
      ((texture (ident "u_specular_sampler") (texcoord.member "xy")).member "r")) ]

/-- The colour under all the light that was gathered. -/
def litColor (color : Variable) : List Edit :=
  [ .statement (increase (ident "l_light_color") lightShare),
    .statement (scale (color.member "rgb") (ident "l_light_color")) ]

def blinnEdits (s : Shader) (normal position texcoord color : Variable) : List Edit :=
  litNormal s normal ++ blinnDeclarations ++ diffuseTerm position
    ++ dimmed s (ident "l_intensity") ++ specularTerm texcoord
    ++ dimmed s (ident "l_intensity") ++ litColor color

def shadowMappedEdits (position : Variable) : List Edit :=
  let lightDir := ident "l_light_dir"
  shadowPrologue position
    ++ [ localVar "l_calc_dist" .float,
         localVar "l_samp_dist" .float,
         .statement (set (ident "l_calc_dist") (lightDir.length / ofFloat32 shadowFarPlane)),
         .statement (set (ident "l_samp_dist")
           ((texture (ident "u_shadow_cube") lightDir).member "r")),
         .conditional
           (.binary .gt (ident "l_calc_dist" - ident "l_samp_dist") (ofFloat32 shadowEpsilon))
           (set (ident "l_lit") (ofFloat32 shadowOccludedLight)) ]

/-- With the mean `r` and the mean square `g` of the stored distances, the share
of light at distance `d > r` is at most `v / (v + (r - d)²)` for the variance
`v = g - r²`. -/
def shadowMappedVarianceEdits (position : Variable) : List Edit :=
  let lightDir := ident "l_light_dir"
  let query := ident "l_query"
  let depth := ident "l_depth"
  let variance := ident "l_var"
  shadowPrologue position
    ++ [ parameter "u_light_proj_matrix" (.mat 4),
         localVar "l_query" (.vec 2),
         localVar "l_depth" .float,
         localVar "l_E_x2" .float,
         localVar "l_Ex_2" .float,
         localVar "l_var" .float,
         localVar "l_md" .float,
         localVar "l_md_2" .float,
         localVar "l_p" .float,
         .statement (set query
           ((texture (ident "u_shadow_cube") lightDir).member "rg" * ofFloat32 momentScale)),
         .statement (set depth lightDir.length),
         .statement (set (ident "l_E_x2") (query.member "g")),
         .statement (set (ident "l_Ex_2") ((query.member "r").pow (ofFloat32 2.0))),
         .statement (set variance (ident "l_E_x2" - ident "l_Ex_2")),
         .statement (set (ident "l_md") (query.member "r" - depth)),
         .statement (set (ident "l_md_2") ((ident "l_md").pow (ofFloat32 2.0))),
         .statement (set (ident "l_p") (variance / (variance + ident "l_md_2"))),
         .conditional (.binary .gt depth (query.member "r"))
           (set (ident "l_lit") (ident "l_p")) ]

/-- The edits a feature comes down to on a shader, unless something it builds on
is missing. -/
def edits (s : Shader) (f : Feature) : Except Fault (List Edit) :=
  match f with
  | .vertexInputs inputs =>
      return vertexInputsEdits inputs
  | .chainFrom previous =>
      return chainFromEdits previous
  | .transform => do
      let position ← requireSlot s f .position
      return transformEdits s position
  | .view => do
      let transformed ← requireLocal s f posTransformed
      return projectedEdits posViewed "u_view_matrix" transformed
  | .project => do
      let viewed ← requireLocal s f posViewed
      return projectedEdits posProjected "u_proj_matrix" viewed
  | .computeBinormal => do
      let normal ← produced s f .normal
      let tangent ← produced s f .tangent
      return binormalEdits s normal tangent
  | .passThrough pattern =>
      match s.find? .input pattern with
      | some source => return passThroughEdits s source
      | none => throw (.noInput f.name s.name pattern)
  | .emitPosition => do
      let transformed ← requireLocal s f posTransformed
      return emitPositionEdits s transformed
  | .emitClipPosition => do
      let projected ← requireLocal s f posProjected
      let clip ← s.requireBuiltin "gl_Position"
      return emitClipPositionEdits clip projected
  | .colorWhite =>
      return colorWhiteEdits s
  | .colorTextured => do
      let texcoord ← requireSlot s f .texCoord
      return colorTexturedEdits s texcoord
  | .normalMapped => do
      let texcoord ← requireSlot s f .texCoord
      let normal ← requireSlot s f .normal
      let tangent ← requireSlot s f .tangent
      let binormal ← requireSlot s f .binormal
      let frontFacing ← s.requireBuiltin "gl_FrontFacing"
      return normalMappedEdits texcoord normal tangent binormal frontFacing
  | .blinn => do
      let normal ← requireSlot s f .normal
      let position ← requireSlot s f .position
      let texcoord ← requireSlot s f .texCoord
      match s.find? .output Slot.color.stem with
      | some color => return blinnEdits s normal position texcoord color
      | none => throw (.noColor f.name s.name)
  | .shadowMapped => do
      let position ← requireSlot s f .position
      return shadowMappedEdits position
  | .shadowMappedVariance => do
      let position ← requireSlot s f .position
      return shadowMappedVarianceEdits position

end Feature

namespace Shader

/-- The shader with the feature added. -/
def apply (s : Shader) (f : Feature) : Except Fault Shader :=
  match f.edits s with
  | .ok edits => .ok (s.editAll edits)
  | .error fault => .error fault

/-- The shader with the feature added, or as it was if the feature is refused. -/
def extend (s : Shader) (f : Feature) : Shader :=
  match s.apply f with
  | .ok extended => extended
  | .error _ => s

def extendAll (s : Shader) (features : List Feature) : Shader := features.foldl extend s

end Shader

end Shaderwright

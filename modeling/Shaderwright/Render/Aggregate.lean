import Shaderwright.Geometry.CubeFace
import Shaderwright.Render.Program

/-!
# Aggregates

State that belongs together and is written into a program as a whole, under the
names of the parameters that the features declare.
-/

namespace Shaderwright

/-- Surface textures, bound to consecutive units in this order. -/
structure Material (τ : Type) where
  color : τ
  normal : τ
  specular : τ

/-- Object placement. -/
structure Positionable where
  world : Mat4
  normalMatrix : Mat3

/-- Normals are rotated by the inverse transpose of the world matrix. -/
def Positionable.ofWorld (world : Mat4) : Positionable :=
  ⟨world, world.rotation.inverseTranspose⟩

/-- Camera state. -/
structure Viewer where
  view : Mat4
  projection : Mat4
  position : Vec3

/-- A perspective camera at `eye`, upright, looking at `target`. -/
def Viewer.lookAt (eye target : Vec3) (fovY aspect near far : Float32) : Viewer :=
  ⟨.lookAt eye target .unitY, .perspective fovY aspect near far, eye⟩

structure Light where
  position : Vec3
  power : Vec3
  ambience : Float32

/-- The shadow store that the shadow features sample. -/
structure ShadowPass (τ : Type) where
  cubemap : τ
  lightProjection : Mat4

def ShadowPass.ofNear (cubemap : τ) (near : Float32) : ShadowPass τ :=
  ⟨cubemap, CubeFace.projection near⟩

inductive Aggregate (τ : Type) where
  | material (m : Material τ)
  | positionable (p : Positionable)
  | viewer (v : Viewer)
  | light (l : Light)
  | shadow (s : ShadowPass τ)

/-- The uniforms an aggregate writes, in order. -/
def Aggregate.writes : Aggregate τ → List (Write τ)
  | .material m =>
      [ .sampler "u_color_sampler" .texture2d m.color,
        .sampler "u_normal_sampler" .texture2d m.normal,
        .sampler "u_specular_sampler" .texture2d m.specular ]
  | .positionable p =>
      [ .value "u_world_matrix" (.mat4 p.world),
        .value "u_normal_matrix" (.mat3 p.normalMatrix) ]
  | .viewer v =>
      [ .value "u_view_matrix" (.mat4 v.view),
        .value "u_proj_matrix" (.mat4 v.projection),
        .value "u_view_position" (.vec3 v.position) ]
  | .light l =>
      [ .value "u_light_position" (.vec3 l.position),
        .value "u_light_power" (.vec3 l.power),
        .value "u_light_ambience" (.float l.ambience) ]
  | .shadow s =>
      [ .sampler "u_shadow_cube" .cubeMap s.cubemap,
        .value "u_light_proj_matrix" (.mat4 s.lightProjection) ]

end Shaderwright

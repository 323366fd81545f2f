import Shaderwright.Render.Device
import Shaderwright.Render.Event

/-!
# Linked programs

A program remembers every uniform location it was asked for, misses included, and
counts the texture units its samplers have claimed. Samplers claim consecutive
units; one that is not active claims none.
-/

namespace Shaderwright

structure Program (δ : Type) [Device δ] where
  handle : Device.ProgramHandle δ
  topology : Topology
  name : String
  /-- The answers so far, in the order of the questions. -/
  uniforms : List (String × Option (Device.Location δ)) := []
  textureUnit : UInt32 := 0

/-- A value for one uniform of a program. -/
inductive Write (τ : Type) where
  | value (name : String) (value : UniformValue)
  | sampler (name : String) (target : TextureTarget) (texture : τ)

/-- A program at work on its device, with the events of the work. -/
structure Bound (δ : Type) [Device δ] where
  program : Program δ
  device : δ
  events : List Event := []

namespace Bound

variable {δ : Type} [Device δ]

/-- The location of a uniform, asked of the device once and remembered. -/
def resolve (b : Bound δ) (name : String) : Option (Device.Location δ) × Bound δ :=
  match b.program.uniforms.lookup name with
  | some known => (known, b)
  | none =>
      match Device.locate b.device b.program.handle name with
      | (location, device) =>
          (location,
            { program := { b.program with uniforms := b.program.uniforms ++ [(name, location)] },
              device,
              events :=
                match location with
                | some _ => b.events
                | none => b.events ++ [.inactiveUniform b.program.name name] })

/-- Writes one uniform. Nothing happens if the program has no such uniform. -/
def perform (b : Bound δ) : Write (Device.Texture δ) → Bound δ
  | .value name value =>
      match b.resolve name with
      | (none, b) => b
      | (some location, b) => { b with device := Device.write b.device location value }
  | .sampler name target texture =>
      match b.resolve name with
      | (none, b) => b
      | (some location, b) =>
          let unit := b.program.textureUnit
          let device := Device.bindTexture b.device unit target texture
          { b with
            program := { b.program with textureUnit := unit + 1 }
            device := Device.write device location (.int unit.toInt32) }

def performAll (b : Bound δ) (writes : List (Write (Device.Texture δ))) : Bound δ :=
  writes.foldl perform b

end Bound

end Shaderwright

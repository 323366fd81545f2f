import Shaderwright.Render.Device

/-!
# A device that refuses to link

Passes every call on to another device, but fails to link a program that binds a
given attribute.
-/

namespace Shaderwright

structure LinkGuard (δ : Type) where
  inner : δ
  refused : Option String := none

namespace LinkGuard

variable {δ : Type} [Device δ]

def link (g : LinkGuard δ) (stages : List (Device.StageHandle δ)) (attributes : List String) :
    Except String (Device.ProgramHandle δ) × LinkGuard δ :=
  match g.refused.filter fun name => attributes.contains name with
  | some name => (.error ("link rejected '" ++ name ++ "'"), g)
  | none =>
      match Device.link g.inner stages attributes with
      | (result, inner) => (result, { g with inner })

instance device : Device (LinkGuard δ) where
  StageHandle := Device.StageHandle δ
  ProgramHandle := Device.ProgramHandle δ
  Location := Device.Location δ
  Texture := Device.Texture δ
  compile g stage source :=
    match Device.compile g.inner stage source with
    | (result, inner) => (result, { g with inner })
  link := link
  deleteStage g handle := { g with inner := Device.deleteStage g.inner handle }
  useProgram g program := { g with inner := Device.useProgram g.inner program }
  locate g program name :=
    match Device.locate g.inner program name with
    | (location, inner) => (location, { g with inner })
  write g location value := { g with inner := Device.write g.inner location value }
  bindTexture g unit target texture :=
    { g with inner := Device.bindTexture g.inner unit target texture }

end LinkGuard

end Shaderwright

import Shaderwright.Render.Device

/-!
# A device that is watched

What a device does with stage objects is its own affair. A device that is watched passes
every call on to another, whatever that one answers, and writes down what becomes of stage
objects: what they are compiled from, which sources are refused, what is linked and what is
deleted.
-/

namespace Shaderwright

/-- A call that is to make a stage object, uses some or deletes one. -/
inductive StageCall (σ : Type) where
  | compiled (stage : Stage) (text : String) (handle : σ)
  | refused (stage : Stage) (text log : String)
  | link (handles : List σ)
  | deleted (handle : σ)
deriving DecidableEq

/-- Whether a stage is to be compiled. -/
def StageCall.compiles {σ : Type} : StageCall σ → Bool
  | .compiled _ _ _ | .refused _ _ _ => true
  | .link _ | .deleted _ => false

/-- A device that passes every call on to another and writes down what becomes of its stage
objects. -/
structure Watched (δ : Type) [Device δ] where
  inner : δ
  log : List (StageCall (Device.StageHandle δ)) := []

namespace Watched

variable {δ : Type} [Device δ]

/-- The other device after a call that is written down. -/
def note (w : Watched δ) (inner : δ) (call : StageCall (Device.StageHandle δ)) : Watched δ :=
  { inner, log := w.log ++ [call] }

def compile (w : Watched δ) (stage : Stage) (text : String) :
    Except String (Device.StageHandle δ) × Watched δ :=
  match Device.compile w.inner stage text with
  | (.ok handle, inner) => (.ok handle, w.note inner (.compiled stage text handle))
  | (.error log, inner) => (.error log, w.note inner (.refused stage text log))

/-- Links are written down whether or not they succeed. -/
def link (w : Watched δ) (handles : List (Device.StageHandle δ)) (attributes : List String) :
    Except String (Device.ProgramHandle δ) × Watched δ :=
  match Device.link w.inner handles attributes with
  | (result, inner) => (result, w.note inner (.link handles))

instance device : Device (Watched δ) where
  StageHandle := Device.StageHandle δ
  ProgramHandle := Device.ProgramHandle δ
  Location := Device.Location δ
  Texture := Device.Texture δ
  compile := compile
  link := link
  deleteStage w handle := w.note (Device.deleteStage w.inner handle) (.deleted handle)
  useProgram w program := { w with inner := Device.useProgram w.inner program }
  locate w program name :=
    match Device.locate w.inner program name with
    | (location, inner) => (location, { w with inner })
  write w location value := { w with inner := Device.write w.inner location value }
  bindTexture w unit target texture :=
    { w with inner := Device.bindTexture w.inner unit target texture }

end Watched

end Shaderwright

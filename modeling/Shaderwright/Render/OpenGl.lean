import Shaderwright.Render.Device
import Shaderwright.Render.Event

/-!
# The OpenGL device

A device over a graphics library that is spoken to in commands. A shader that
does not compile is deleted again. A program is linked with its stages attached
and its attributes bound, the stages are detached whether or not it links, and a
program that does not link is deleted.
-/

namespace Shaderwright

namespace OpenGl

/-- What is sent to the library without an answer. -/
inductive Command where
  | shaderSource (shader : UInt32) (text : String)
  | compileShader (shader : UInt32)
  | deleteShader (shader : UInt32)
  | attachShader (program shader : UInt32)
  | bindAttribLocation (program index : UInt32) (name : String)
  | linkProgram (program : UInt32)
  | detachShader (program shader : UInt32)
  | deleteProgram (program : UInt32)
  | useProgram (program : UInt32)
  /-- One to four floats. -/
  | uniformFloats (location : UInt32) (values : List Float32)
  | uniformInt (location : UInt32) (value : Int32)
  /-- One square matrix of the given rank, column by column. -/
  | uniformMatrix (rank : Nat) (location : UInt32) (values : List Float32)
  | activeTexture (unit : UInt32)
  | bindTexture (target texture : UInt32)

/-- The library. A created name of zero stands for a failure, a negative location
for a uniform that is not active. -/
class Library (γ : Type) where
  createShader : γ → UInt32 → UInt32 × γ
  createProgram : γ → UInt32 × γ
  uniformLocation : γ → UInt32 → String → Int32 × γ
  submit : γ → Command → γ
  compiled : γ → UInt32 → Bool
  linked : γ → UInt32 → Bool
  shaderLog : γ → UInt32 → String
  programLog : γ → UInt32 → String

/-! ## Constants -/

def shaderKind : Stage → UInt32
  | .vertex => 0x8B31
  | .tessControl => 0x8E88
  | .tessEvaluation => 0x8E87
  | .geometry => 0x8DD9
  | .fragment => 0x8B30

/-- Primitive mode to draw the geometry of a program with. -/
def drawMode : Topology → UInt32
  | .triangles => 4
  | .patches => 14

def textureTarget : TextureTarget → UInt32
  | .texture2d => 0x0DE1
  | .cubeMap => 0x8513

/-- The first of the consecutive names of texture units. -/
def texture0 : UInt32 := 0x84C0

end OpenGl

/-- A device that speaks to a library. -/
structure OpenGl (γ : Type) where
  library : γ

namespace OpenGl

variable {γ : Type} [Library γ]

def submit (d : OpenGl γ) (c : Command) : OpenGl γ := ⟨Library.submit d.library c⟩

def submitAll (d : OpenGl γ) (cs : List Command) : OpenGl γ := cs.foldl submit d

def compile (d : OpenGl γ) (stage : Stage) (source : String) :
    Except String UInt32 × OpenGl γ :=
  match Library.createShader d.library (shaderKind stage) with
  | (shader, library) =>
      let d : OpenGl γ := ⟨library⟩
      if shader = 0 then (.error "Unable to create Shader object", d)
      else
        let d := d.submitAll [.shaderSource shader source, .compileShader shader]
        if Library.compiled d.library shader then (.ok shader, d)
        else (.error (Library.shaderLog d.library shader), d.submit (.deleteShader shader))

/-- Attaches the stages, binds the attributes in order, links and detaches. -/
def linkCommands (program : UInt32) (stages : List UInt32) (attributes : List String) :
    List Command :=
  stages.map (.attachShader program)
    ++ attributes.zipIdx.map (fun (name, i) => .bindAttribLocation program (UInt32.ofNat i) name)
    ++ [.linkProgram program] ++ stages.map (.detachShader program)

def link (d : OpenGl γ) (stages : List UInt32) (attributes : List String) :
    Except String UInt32 × OpenGl γ :=
  match Library.createProgram d.library with
  | (program, library) =>
      let d : OpenGl γ := ⟨library⟩
      if program = 0 then (.error "Unable to create Program object", d)
      else
        let d := d.submitAll (linkCommands program stages attributes)
        if Library.linked d.library program then (.ok program, d)
        else (.error (Library.programLog d.library program), d.submit (.deleteProgram program))

def locate (d : OpenGl γ) (program : UInt32) (name : String) : Option UInt32 × OpenGl γ :=
  match Library.uniformLocation d.library program name with
  | (location, library) =>
      (if location < 0 then none else some location.toUInt32, ⟨library⟩)

def writeCommand (location : UInt32) : UniformValue → Command
  | .float x => .uniformFloats location [x]
  | .vec2 v => .uniformFloats location v.toList
  | .vec3 v => .uniformFloats location v.toList
  | .vec4 v => .uniformFloats location v.toList
  | .mat3 m => .uniformMatrix 3 location m.toList
  | .mat4 m => .uniformMatrix 4 location m.toList
  | .int n => .uniformInt location n

instance device : Device (OpenGl γ) where
  StageHandle := UInt32
  ProgramHandle := UInt32
  Location := UInt32
  Texture := UInt32
  compile := compile
  link := link
  deleteStage d handle := d.submit (.deleteShader handle)
  useProgram d program := d.submit (.useProgram program)
  locate := locate
  write d location value := d.submit (writeCommand location value)
  bindTexture d unit target texture :=
    d.submitAll [.activeTexture (texture0 + unit), .bindTexture (textureTarget target) texture]

end OpenGl

end Shaderwright

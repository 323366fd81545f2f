import Shaderwright.Render.OpenGl
import Shaderwright.Text.Words

/-!
# A recording graphics library

Stands in for the real library: it names objects one after the other, fails as it
is told to, and keeps every call in order.
-/

namespace Shaderwright

namespace Recorder

inductive Call where
  | createShader (kind name : UInt32)
  | createProgram (name : UInt32)
  | uniformLocation (program : UInt32) (name : String)
  | command (c : OpenGl.Command)

end Recorder

/-- How the library behaves. -/
structure Recorder.Behaviour where
  noShader : Bool := false
  noProgram : Bool := false
  /-- Sources with this text do not compile. -/
  failCompile : Option String := none
  failLink : Bool := false
  log : String := ""
  /-- Uniforms that are not active in any program. -/
  missing : List String := []

structure Recorder where
  behaviour : Recorder.Behaviour
  calls : List Recorder.Call := []
  lastName : UInt32 := 0
  sources : List (UInt32 × String) := []
  locations : List ((UInt32 × String) × Int32) := []

namespace Recorder

def record (r : Recorder) (call : Call) : Recorder := { r with calls := r.calls ++ [call] }

def createShader (r : Recorder) (kind : UInt32) : UInt32 × Recorder :=
  if r.behaviour.noShader then (0, r.record (.createShader kind 0))
  else
    let name := r.lastName + 1
    (name, { r with lastName := name }.record (.createShader kind name))

def createProgram (r : Recorder) : UInt32 × Recorder :=
  if r.behaviour.noProgram then (0, r.record (.createProgram 0))
  else
    let name := r.lastName + 1
    (name, { r with lastName := name }.record (.createProgram name))

def uniformLocation (r : Recorder) (program : UInt32) (name : String) : Int32 × Recorder :=
  let r := r.record (.uniformLocation program name)
  if r.behaviour.missing.contains name then (-1, r)
  else
    match r.locations.lookup (program, name) with
    | some location => (location, r)
    | none =>
        let location := Int32.ofNat r.locations.length
        (location, { r with locations := r.locations ++ [((program, name), location)] })

def submit (r : Recorder) (c : OpenGl.Command) : Recorder :=
  let r := r.record (.command c)
  match c with
  | .shaderSource shader text => { r with sources := (shader, text) :: r.sources }
  | _ => r

/-- A shader compiles unless its source holds the text that must fail. -/
def compiled (r : Recorder) (shader : UInt32) : Bool :=
  match r.behaviour.failCompile with
  | none => true
  | some needle => !(Text.contains ((r.sources.lookup shader).getD "") needle)

instance library : OpenGl.Library Recorder where
  createShader := createShader
  createProgram := createProgram
  uniformLocation := uniformLocation
  submit := submit
  compiled := compiled
  linked r _ := !r.behaviour.failLink
  shaderLog r _ := r.behaviour.log
  programLog r _ := r.behaviour.log

end Recorder

end Shaderwright

import Shaderwright.Render.Device
import Shaderwright.Text.Words

/-!
# A device without hardware

Hands out handles one after the other, one count for stages and programs, and
records every call. A source can be rejected by a text it contains, a uniform can
be hidden; every other uniform gets a location of its own the first time it is
asked for.
-/

namespace Shaderwright

namespace Headless

inductive Call where
  | compile (stage : Stage) (handle : UInt32)
  | link (program : UInt32) (stages : List UInt32) (attributes : List String)
  | deleteStage (handle : UInt32)
  | useProgram (program : UInt32)
  | locate (program : UInt32) (name : String)
  | write (location : UInt32) (value : UniformValue)
  | bindTexture (unit : UInt32) (target : TextureTarget) (texture : UInt32)

end Headless

structure Headless where
  calls : List Headless.Call := []
  lastHandle : UInt32 := 0
  sources : List (UInt32 × String) := []
  locations : List ((UInt32 × String) × UInt32) := []
  hidden : List String := []
  rejected : Option String := none

namespace Headless

def record (d : Headless) (call : Call) : Headless := { d with calls := d.calls ++ [call] }

def rejects (d : Headless) (source : String) : Option String :=
  match d.rejected with
  | none => none
  | some needle => if Text.contains source needle then some needle else none

def compile (d : Headless) (stage : Stage) (source : String) :
    Except String UInt32 × Headless :=
  match d.rejects source with
  | some needle => (.error ("0:1(1): error: rejected '" ++ needle ++ "'"), d)
  | none =>
      let handle := d.lastHandle + 1
      (.ok handle,
        { d with lastHandle := handle, sources := d.sources ++ [(handle, source)] }.record
          (.compile stage handle))

def link (d : Headless) (stages : List UInt32) (attributes : List String) :
    Except String UInt32 × Headless :=
  if stages = [] then (.error "error: no shaders attached", d)
  else
    let program := d.lastHandle + 1
    (.ok program, { d with lastHandle := program }.record (.link program stages attributes))

def deleteStage (d : Headless) (handle : UInt32) : Headless :=
  { d with sources := d.sources.filter fun (h, _) => h ≠ handle }.record (.deleteStage handle)

def locate (d : Headless) (program : UInt32) (name : String) : Option UInt32 × Headless :=
  let d := d.record (.locate program name)
  if d.hidden.contains name then (none, d)
  else
    match d.locations.lookup (program, name) with
    | some location => (some location, d)
    | none =>
        let location := UInt32.ofNat d.locations.length
        (some location, { d with locations := d.locations ++ [((program, name), location)] })

instance device : Device Headless where
  StageHandle := UInt32
  ProgramHandle := UInt32
  Location := UInt32
  Texture := UInt32
  compile := compile
  link := link
  deleteStage := deleteStage
  useProgram d program := d.record (.useProgram program)
  locate := locate
  write d location value := d.record (.write location value)
  bindTexture d unit target texture := d.record (.bindTexture unit target texture)

/-! ## Questions about the record -/

def compileCount (d : Headless) : Nat :=
  d.calls.countP fun call => match call with
    | .compile _ _ => true
    | _ => false

def linkCount (d : Headless) : Nat :=
  d.calls.countP fun call => match call with
    | .link _ _ _ => true
    | _ => false

/-- How often the location of a name was asked for. -/
def locationQueries (d : Headless) (name : String) : Nat :=
  d.calls.countP fun call => match call with
    | .locate _ queried => queried == name
    | _ => false

/-- The source of a stage object that was not deleted. -/
def source? (d : Headless) (handle : UInt32) : Option String := d.sources.lookup handle

def clearCalls (d : Headless) : Headless := { d with calls := [] }

end Headless

end Shaderwright

import Shaderwright.Config.Program
import Shaderwright.Files.Tree
import Shaderwright.Render.Aggregate
import Shaderwright.Shader.Source

/-!
# Program cache and render context

A cache builds each program once and never lets one go: a program id is its place
in the list of programs, and the index leads from keys to ids. Stage objects are
shared between programs that name the same stage, until they are released. A
context adds the device, the active program and a journal of events.

Composed shaders and stage files are both brought into one form first, a recipe;
there is a single way of building.
-/

namespace Shaderwright

/-- Why an operation on a context has no result. -/
inductive RenderError where
  | noStages
  | noActiveProgram
  | activeProgramLost (id : ProgramId)
  | unreadable (path : String) (cause : ReadError)
  | uncompiled (name : String) (stage : Stage) (log source : String)
  | unlinked (name log : String)
  | unknownProgram (id : ProgramId)
deriving DecidableEq, Repr

def RenderError.message : RenderError → String
  | .noStages => "a program needs at least one stage"
  | .noActiveProgram => "no active program; call RenderContext::activate first"
  | .activeProgramLost id =>
      "internal error: entered unreachable code: active id " ++ id.text ++ " is not in the cache"
  | .unreadable path cause => "failed to read shader at " ++ path ++ ": " ++ cause.message
  | .uncompiled name stage log _ =>
      "failed to compile " ++ stage.name ++ " stage '" ++ name ++ "':\n" ++ log
  | .unlinked name log => "failed to link program '" ++ name ++ "':\n" ++ log
  | .unknownProgram id => "no program with id " ++ id.text

/-! ## Recipes -/

/-- One stage of a program to build. The source is needed only if no stage object
is held under the key. -/
structure Part where
  key : String
  stage : Stage
  source : Except RenderError String
deriving Repr

/-- A program to build. -/
structure Recipe where
  key : String
  name : String
  parts : List Part
  attributes : List String
  topology : Topology
deriving Repr

namespace Recipe

def partOfShader (version : Option Version) (s : Shader) : Part :=
  ⟨s.name, s.stage, .ok (s.source version)⟩

/-- The program of composed stages. Its key is the stage names in a row, and the
attributes are the inputs of the first stage. -/
def ofShaders (version : Option Version) (first : Shader) (rest : List Shader) : Recipe :=
  let shaders := first :: rest
  let key := Text.concat (shaders.map Shader.name)
  { key
    name := key
    parts := shaders.map (partOfShader version)
    attributes := first.inputs.map Variable.name
    topology :=
      if shaders.any fun s => s.stage.isTessellation then .patches else .triangles }

def partOfFile (read : Reader) (stage : Stage) (path : String) : Part :=
  ⟨path, stage,
    match read path with
    | .ok source => .ok source
    | .error cause => .error (.unreadable path cause)⟩

/-- The program of two stage files, as they are. -/
def ofFiles (read : Reader) (p : FileProgram) : Recipe where
  key := p.cacheKey
  name := p.name
  parts := [partOfFile read .vertex p.vertexPath, partOfFile read .fragment p.fragmentPath]
  attributes := p.attributes
  topology := .triangles

end Recipe

/-! ## State -/

structure Cache (δ : Type) [Device δ] where
  version : Option Version
  stages : List (String × Device.StageHandle δ) := []
  programs : List (Program δ) := []
  index : List (String × ProgramId) := []

structure Context (δ : Type) [Device δ] where
  device : δ
  cache : Cache δ
  active : Option ProgramId := none
  journal : List Event := []

namespace Context

variable {δ : Type} [Device δ]

/-- A context in which nothing was built yet. -/
def fresh (device : δ) (version : Option Version) : Context δ :=
  { device, cache := { version } }

def record (c : Context δ) (e : Event) : Context δ := { c with journal := c.journal ++ [e] }

/-- The program built under a key. -/
def find? (c : Context δ) (key : String) : Option ProgramId := c.cache.index.lookup key

def get? (c : Context δ) (id : ProgramId) : Option (Program δ) := c.cache.programs[id.index]?

/-! ## Building -/

def holdStage (c : Context δ) (key : String) (handle : Device.StageHandle δ) : Context δ :=
  { c with cache := { c.cache with stages := c.cache.stages ++ [(key, handle)] } }

/-- Compiles a source and holds the stage object under its key. -/
def compile (c : Context δ) (key : String) (stage : Stage) (source : String) :
    Except RenderError (Device.StageHandle δ) × Context δ :=
  let c := c.record (.compiling key stage)
  match Device.compile c.device stage source with
  | (.ok handle, device) => (.ok handle, { c with device }.holdStage key handle)
  | (.error log, device) =>
      (.error (.uncompiled key stage log source),
        { c with device }.record (.compileFailed key stage log source))

/-- The stage object of a part, held already or compiled now. -/
def obtain (c : Context δ) (p : Part) :
    Except RenderError (Device.StageHandle δ) × Context δ :=
  match c.cache.stages.lookup p.key with
  | some handle => (.ok handle, c)
  | none =>
      match p.source with
      | .ok source => c.compile p.key p.stage source
      | .error e => (.error e, c)

/-- The stage objects of the parts in order, up to the first failure. -/
def obtainAll (c : Context δ) :
    List Part → Except RenderError (List (Device.StageHandle δ)) × Context δ
  | [] => (.ok [], c)
  | p :: rest =>
      match c.obtain p with
      | (.error e, c) => (.error e, c)
      | (.ok handle, c) =>
          match c.obtainAll rest with
          | (.error e, c) => (.error e, c)
          | (.ok handles, c) => (.ok (handle :: handles), c)

/-- Keeps a linked program under its key. -/
def keep (c : Context δ) (r : Recipe) (handle : Device.ProgramHandle δ) :
    ProgramId × Context δ :=
  let id : ProgramId := ⟨c.cache.programs.length⟩
  let program : Program δ := { handle, topology := r.topology, name := r.name }
  (id,
    { c with
      cache := { c.cache with
        programs := c.cache.programs ++ [program]
        index := c.cache.index ++ [(r.key, id)] } }.record (.linked r.name id r.topology))

/-- The program of a recipe, built if its key is new. -/
def build (c : Context δ) (r : Recipe) : Except RenderError ProgramId × Context δ :=
  match c.find? r.key with
  | some id => (.ok id, c.record (.cacheHit r.key))
  | none =>
      match c.obtainAll r.parts with
      | (.error e, c) => (.error e, c)
      | (.ok handles, c) =>
          match Device.link c.device handles r.attributes with
          | (.error log, device) =>
              (.error (.unlinked r.name log), { c with device }.record (.linkFailed r.name log))
          | (.ok handle, device) =>
              match { c with device }.keep r handle with
              | (id, c) => (.ok id, c)

/-- The program of composed stages, in pipeline order. -/
def compose (c : Context δ) : List Shader → Except RenderError ProgramId × Context δ
  | [] => (.error .noStages, c)
  | first :: rest => c.build (.ofShaders c.cache.version first rest)

/-- The program of two stage files. -/
def fixed (c : Context δ) (read : Reader) (p : FileProgram) :
    Except RenderError ProgramId × Context δ :=
  c.build (.ofFiles read p)

/-- Deletes a stage object that was held under a key. -/
def release (c : Context δ) (entry : String × Device.StageHandle δ) : Context δ :=
  { c with device := Device.deleteStage c.device entry.2 }.record (.releasing entry.1)

/-- Deletes the stage objects. That they go in the order in which they are held is a
choice: a cache that holds them in no order may delete them in any. Programs that
were linked stay as they are. -/
def releaseStages (c : Context δ) : Context δ :=
  c.cache.stages.foldl release { c with cache := { c.cache with stages := [] } }

/-! ## The active program -/

def setProgram (c : Context δ) (id : ProgramId) (program : Program δ) : Context δ :=
  { c with cache := { c.cache with programs := c.cache.programs.set id.index program } }

/-- Makes a program the active one and starts its texture units anew. -/
def activate (c : Context δ) (id : ProgramId) : Except RenderError Unit × Context δ :=
  match c.get? id with
  | none => (.error (.unknownProgram id), c)
  | some program =>
      let c := c.setProgram id { program with textureUnit := 0 }
      (.ok (), { c with device := Device.useProgram c.device program.handle, active := some id })

def activeProgram (c : Context δ) : Except RenderError (ProgramId × Program δ) :=
  match c.active with
  | none => .error .noActiveProgram
  | some id =>
      match c.get? id with
      | none => .error (.activeProgramLost id)
      | some program => .ok (id, program)

/-- Lets the active program work on the device. -/
def withActive (c : Context δ) (work : Bound δ → α × Bound δ) :
    Except RenderError α × Context δ :=
  match c.activeProgram with
  | .error e => (.error e, c)
  | .ok (id, program) =>
      match work { program, device := c.device } with
      | (result, b) =>
          let c := c.setProgram id b.program
          (.ok result, { c with device := b.device, journal := c.journal ++ b.events })

/-- The location of a uniform of the active program. -/
def locate (c : Context δ) (name : String) :
    Except RenderError (Option (Device.Location δ)) × Context δ :=
  c.withActive fun b => b.resolve name

def perform (c : Context δ) (writes : List (Write (Device.Texture δ))) :
    Except RenderError Unit × Context δ :=
  c.withActive fun b => ((), b.performAll writes)

def set (c : Context δ) (name : String) (value : UniformValue) :
    Except RenderError Unit × Context δ :=
  c.perform [.value name value]

/-- Binds a texture to the next free unit and points a sampler to it. -/
def bindTexture (c : Context δ) (name : String) (target : TextureTarget)
    (texture : Device.Texture δ) : Except RenderError Unit × Context δ :=
  c.perform [.sampler name target texture]

/-- Writes every uniform of an aggregate. -/
def stream (c : Context δ) (a : Aggregate (Device.Texture δ)) :
    Except RenderError Unit × Context δ :=
  c.perform a.writes

end Context

end Shaderwright

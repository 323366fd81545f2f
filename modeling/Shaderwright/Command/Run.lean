import Shaderwright.Command.Basic
import Shaderwright.Config.File
import Shaderwright.Render.Context
import Shaderwright.Render.Headless

/-!
# Running commands

What a command prints, how it fails and what it reports on the way. Programs are
linked in order, up to the first failure, on a device that needs no hardware; what
was printed before a failure stays printed.
-/

namespace Shaderwright

/-! ## Failures -/

/-- A failure and what lies behind it, the nearest cause first. -/
structure Failure where
  message : String
  causes : List String := []
deriving DecidableEq, Repr

namespace Failure

/-- A text of several lines with the same spaces before each line but the first. -/
def indented (width : Nat) (s : String) : String :=
  String.ofList (s.toList.flatMap fun c =>
    if c = '\n' then '\n' :: List.replicate width ' ' else [c])

def numbered (place : Nat) (cause : String) : String :=
  "    " ++ Nat.repr place ++ ": " ++ indented 7 cause ++ "\n"

/-- A single cause stands alone, several are numbered. -/
def causeText : List String → String
  | [] => ""
  | [cause] => "\nCaused by:\n    " ++ indented 4 cause ++ "\n"
  | causes =>
      "\nCaused by:\n" ++ Text.concat (causes.zipIdx.map fun (cause, place) => numbered place cause)

def report (f : Failure) : String := "Error: " ++ f.message ++ "\n" ++ causeText f.causes

end Failure

def Config.LoadError.causes (e : Config.LoadError) : List String :=
  e.message :: e.cause?.toList

/-- The error, and behind it the reason why a file could not be read. -/
def RenderError.causes (e : RenderError) : List String :=
  match e with
  | .unreadable _ cause => [e.message, cause.message]
  | e => [e.message]

/-! ## Outcomes -/

structure Outcome where
  output : String := ""
  failure : Option Failure := none
  events : List Event := []
deriving DecidableEq, Repr

namespace Outcome

def status (o : Outcome) : UInt32 := if o.failure.isSome then 1 else 0

/-- The text on the error stream. -/
def errorOutput (o : Outcome) : String :=
  match o.failure with
  | some f => f.report
  | none => ""

end Outcome

/-! ## Listings -/

/-- A stage under a line that names it. -/
def Shader.listing (version : Option Version) (s : Shader) : String :=
  "// " ++ s.name ++ " (" ++ s.stage.name ++ ")\n" ++ s.source version

def Preset.listing (p : Preset) : String :=
  "  " ++ Text.padRight 16 p.name ++ " [" ++
    Text.join ", " (p.shaders.map fun s => s.stage.name) ++ "] " ++ p.description ++ "\n"

def FileProgram.listing (name : String) (p : FileProgram) : String :=
  "  " ++ Text.padRight 16 name ++ " vertex=" ++ p.vertex ++ " fragment=" ++ p.fragment ++
    " attributes=[" ++ Text.join ", " p.attributes ++ "]\n"

def Config.versionLine (c : Config) : String :=
  "  glsl version: " ++
    (match c.glslVersion with
    | some version => version.text
    | none => "(none; no #version header)") ++ "\n"

/-- The programs of a configuration in the order of their names. -/
def Config.fileProgramList (c : Config) : List (String × FileProgram) :=
  c.programNames.filterMap fun name => (c.program? name).map fun p => (name, p)

def Config.listing (path : String) (c : Config) : String :=
  "Configuration: " ++ path ++ "\n  shader dir:   " ++ c.shaderDir ++ "\n" ++ c.versionLine ++
    if c.programs.isEmpty then "No programs configured.\n"
    else
      "Programs:\n" ++
        Text.concat (c.fileProgramList.map fun (name, p) => p.listing name)

/-! ## Linking -/

/-- A program to link. -/
inductive Job where
  | preset (preset : Preset)
  | program (name : String) (files : FileProgram)
deriving DecidableEq, Repr

namespace Job

def label : Job → String
  | .preset p => p.name
  | .program name _ => name

def failureMessage : Job → String
  | .preset p => "failed to link preset '" ++ p.name ++ "'"
  | .program name _ => "failed to link program '" ++ name ++ "'"

def build (read : Reader) (c : Context Headless) :
    Job → Except RenderError ProgramId × Context Headless
  | .preset p => c.compose p.shaders
  | .program _ files => c.fixed read files

/-- The line that reports a linked program. -/
def line (j : Job) (id : ProgramId) (p : Program Headless) : String :=
  Text.padRight 16 j.label ++ " program " ++ id.text ++ " key=" ++ p.name ++ " topology=" ++
    p.topology.label ++ "\n"

/-- Links programs in order, up to the first failure. -/
def linkAll (read : Reader) (c : Context Headless) : List Job → Outcome × Context Headless
  | [] => ({}, c)
  | j :: rest =>
      match j.build read c with
      | (.error e, c) => ({ failure := some ⟨j.failureMessage, e.causes⟩ }, c)
      | (.ok id, c) =>
          let printed :=
            match c.get? id with
            | some p => j.line id p
            | none => ""
          match linkAll read c rest with
          | (o, c) => ({ o with output := printed ++ o.output }, c)

/-- Links programs and reports what the context wrote down on the way. -/
def runAll (read : Reader) (c : Context Headless) (jobs : List Job) : Outcome :=
  match linkAll read c jobs with
  | (o, c) => { o with events := c.journal }

end Job

/-! ## Commands -/

namespace Command

def defaultConfigFile : String := "seen.toml"

def emitOutcome (preset : Preset) (stages : StageSelection) (version : Option Version) :
    Outcome :=
  match preset.shaders.filter fun s => stages.includes s.stage with
  | [] =>
      let message :=
        "preset '" ++ preset.name ++ "' has no stage matching " ++ stages.label
      { failure := some { message } }
  | shaders => { output := Text.join "\n" (shaders.map fun s => s.listing version) }

/-- Loads a configuration and goes on with it. -/
def withConfig (read : Reader) (path : String) (next : Config → Outcome) : Outcome :=
  match Config.load read path with
  | .error e => { failure := some ⟨"failed to load configuration " ++ path, e.causes⟩ }
  | .ok c =>
      let o := next c
      { o with events := .configLoaded path c.shaderDir c.programs.length :: o.events }

def linkConfig (read : Reader) (path : String) (version : Option Version) (c : Config) :
    Outcome :=
  if c.programs.isEmpty then
    { failure := some { message := path ++ " defines no programs to link" } }
  else
    Job.runAll read (.fresh {} (version.or c.glslVersion))
      (c.fileProgramList.map fun (name, p) => .program name p)

/-- Runs a command, given the files. -/
def run (read : Reader) : Command → Outcome
  | .emit preset stages version => emitOutcome preset stages version
  | .presets => { output := "Presets:\n" ++ Text.concat (Preset.all.map Preset.listing) }
  | .config file =>
      let path := file.getD defaultConfigFile
      withConfig read path fun c => { output := c.listing path }
  | .link [] file version =>
      let path := file.getD defaultConfigFile
      withConfig read path (linkConfig read path version)
  | .link ps _ version => Job.runAll read (.fresh {} version) (ps.map .preset)

/-- The files that a command reads, as far as the files known already tell. -/
def filesNeeded (read : Reader) : Command → List String
  | .config file => [file.getD defaultConfigFile]
  | .link [] file _ =>
      let path := file.getD defaultConfigFile
      match Config.load read path with
      | .error _ => [path]
      | .ok c =>
          path :: c.fileProgramList.flatMap fun (_, p) => [p.vertexPath, p.fragmentPath]
  | _ => []

end Command

end Shaderwright

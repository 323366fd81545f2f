import Shaderwright.Text.Blank
import Shaderwright.Text.Words

/-!
# Pipeline stages

The programmable phases of the pipeline, their names and the spellings under
which they are accepted. Every name a stage has is also read back as it.
-/

namespace Shaderwright

inductive Stage where
  | vertex
  | tessControl
  | tessEvaluation
  | geometry
  | fragment
deriving DecidableEq, Repr

namespace Stage

/-- The stages in pipeline order. -/
def all : List Stage := [.vertex, .tessControl, .tessEvaluation, .geometry, .fragment]

def name : Stage → String
  | .vertex => "vertex"
  | .tessControl => "tess-control"
  | .tessEvaluation => "tess-evaluation"
  | .geometry => "geometry"
  | .fragment => "fragment"

/-- The ending of the names of the outputs a stage produces. -/
def suffix : Stage → String
  | .vertex => "vsh"
  | .tessControl => "tcs"
  | .tessEvaluation => "tes"
  | .geometry => "geo"
  | .fragment => "fsh"

/-- The stage as one capitalised word. -/
def label : Stage → String
  | .vertex => "Vertex"
  | .tessControl => "TessControl"
  | .tessEvaluation => "TessEvaluation"
  | .geometry => "Geometry"
  | .fragment => "Fragment"

def isTessellation : Stage → Bool
  | .tessControl | .tessEvaluation => true
  | .vertex | .geometry | .fragment => false

/-- The spellings of a stage, all in lower case. -/
def spellings (s : Stage) : List String :=
  match s with
  | .vertex => [s.name, s.suffix, "vert"]
  | .tessControl => [s.name, s.suffix, "tesc"]
  | .tessEvaluation => [s.name, s.suffix, "tese"]
  | .geometry => [s.name, s.suffix, "geom"]
  | .fragment => [s.name, s.suffix, "frag"]

/-- A text that spells no stage, trimmed and lower-cased. -/
structure Unknown where
  text : String
deriving DecidableEq, Repr

def Unknown.message (u : Unknown) : String :=
  "unknown shader stage '" ++ u.text ++ "'"

/-- Reads a stage, whatever the case of its ASCII letters and the blanks around
it. -/
def parse (s : String) : Except Unknown Stage :=
  let word := Text.lower (Text.trim s)
  match all.find? fun stage => stage.spellings.contains word with
  | some stage => .ok stage
  | none => .error ⟨word⟩

end Stage

/-- The stages a listing is restricted to. -/
inductive StageSelection where
  | all
  | only (stage : Stage)
deriving DecidableEq, Repr

namespace StageSelection

def includes : StageSelection → Stage → Bool
  | .all, _ => true
  | .only stage, s => decide (stage = s)

def label : StageSelection → String
  | .all => "All"
  | .only stage => "Only(" ++ stage.label ++ ")"

inductive Invalid where
  | empty
  | unknown (cause : Stage.Unknown)
deriving DecidableEq, Repr

def Invalid.message : Invalid → String
  | .empty => "stage must not be empty"
  | .unknown cause => cause.message ++ "; expected vertex, fragment, ... or all"

def parse (s : String) : Except Invalid StageSelection :=
  let word := Text.trim s
  if word = "" then .error .empty
  else if Text.lower word = "all" then .ok .all
  else
    match Stage.parse word with
    | .ok stage => .ok (.only stage)
    | .error cause => .error (.unknown cause)

end StageSelection

end Shaderwright

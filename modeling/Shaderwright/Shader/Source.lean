import Shaderwright.Version
import Shaderwright.Expr.Printer
import Shaderwright.Shader.Basic

/-!
# Source text of a shader

The text is a list of lines: version header, stage layout, inputs, outputs,
parameters, and the main function with its locals and statements. Every line is
closed by a line feed; statements are indented by their depth.
-/

namespace Shaderwright

/-- Size of the patches a tessellation control stage puts out. -/
def patchVertices : Nat := 3

/-- Bound on the vertices a geometry stage puts out per primitive. -/
def geometryMaxVertices : Nat := 3

/-- A declaration with its semicolon. -/
def Variable.line (v : Variable) : String := v.declaration ++ ";"

/-- The text of a line, without indentation. -/
def Line.text : Line → String
  | .statement e => e.text ++ ";"
  | .openIf condition => "if (" ++ condition.text ++ ") \x7b"
  | .close => "\x7d"

def Statement.text (s : Statement) : String :=
  String.ofList (List.replicate s.depth '\t') ++ s.line.text

namespace Shader

def header : Option Version → List String
  | none => []
  | some v => ["#version " ++ Nat.repr v.number, ""]

/-- Vertex inputs, numbered in declaration order. -/
def locationLines (vars : List Variable) : List String :=
  vars.zipIdx.map fun (v, location) =>
    "layout(location = " ++ Nat.repr location ++ ") " ++ v.line

/-- What a stage says about its primitives. -/
def layoutLines : Stage → List String
  | .vertex | .fragment => []
  | .tessControl => ["layout(vertices = " ++ Nat.repr patchVertices ++ ") out;", ""]
  | .tessEvaluation => ["layout(triangles, equal_spacing, ccw) in;", ""]
  | .geometry =>
      [ "layout(triangles) in;",
        "layout(triangle_strip, max_vertices = " ++ Nat.repr geometryMaxVertices ++ ") out;",
        "" ]

def inputLines (s : Shader) : List String :=
  match s.stage with
  | .vertex => locationLines s.inputs
  | _ => s.inputs.map Variable.line

/-- The main function. -/
def mainLines (s : Shader) : List String :=
  ["void main()", "\x7b"] ++ s.locals.map (fun v => "\t" ++ v.line) ++ [""]
    ++ s.statements.map Statement.text ++ ["\x7d"]

/-- The source, line by line. -/
def lines (s : Shader) (version : Option Version) : List String :=
  header version ++ layoutLines s.stage ++ s.inputLines ++ [""]
    ++ s.outputs.map Variable.line ++ [""] ++ s.parameters.map Variable.line ++ [""]
    ++ s.mainLines

/-- The complete source of the stage. -/
def source (s : Shader) (version : Option Version) : String :=
  Text.concat ((s.lines version).map fun line => line ++ "\n")

end Shader

end Shaderwright

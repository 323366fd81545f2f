import Shaderwright.Stage
import Shaderwright.Variable.Basic

/-!
# Built-in variables

The variables that the language itself provides to each stage, in the order of
their tables. They are used like any other variable and never declared.
-/

namespace Shaderwright.Builtin

/-- Size of the arrays of vertices and of clip distances. -/
def arrayBound : Nat := 32

def arrayOf (size : Nat) (v : Variable) : Variable := v.change (.array size)

/-- The block of per-vertex values, an array over the vertices of the patch. -/
def perVertex (role : Role) (name : String) : Variable :=
  (Variable.plain role .struct name).changeAll
    [ .array arrayBound,
      .member (.plain role (.vec 4) "gl_Position"),
      .member (.plain role .float "gl_PointSize"),
      .member (arrayOf arrayBound (.plain role .float "gl_ClipDistance")) ]

/-- The variables visible to a stage. -/
def table : Stage → List Variable
  | .vertex =>
    [ .plain .input .int "gl_VertexID",
      .plain .input .int "gl_InstanceID",
      .plain .input .int "gl_DrawID",
      .plain .input .int "gl_BaseVertex",
      .plain .input .int "gl_BaseInstance",
      .plain .output (.vec 4) "gl_Position",
      .plain .output .float "gl_PointSize",
      arrayOf arrayBound (.plain .output .float "gl_ClipDistance") ]
  | .tessControl =>
    [ .plain .input .int "gl_PatchVerticesIn",
      .plain .input .int "gl_PrimitiveID",
      .plain .input .int "gl_InvocationID",
      perVertex .input "gl_in",
      arrayOf 4 (.plain .output .float "gl_TessLevelOuter"),
      arrayOf 2 (.plain .output .float "gl_TessLevelInner"),
      perVertex .output "gl_out" ]
  | .tessEvaluation =>
    [ .plain .input (.vec 3) "gl_TessCoord",
      .plain .input .int "gl_PatchVerticesIn",
      .plain .input .int "gl_PrimitiveID",
      arrayOf 4 (.plain .input .float "gl_TessLevelOuter"),
      arrayOf 2 (.plain .input .float "gl_TessLevelInner"),
      perVertex .input "gl_in",
      .plain .output (.vec 4) "gl_Position",
      .plain .output .float "gl_PointSize",
      arrayOf arrayBound (.plain .output .float "gl_ClipDistance") ]
  | .geometry =>
    [ perVertex .input "gl_in",
      .plain .input .int "gl_PrimitiveIDIn",
      .plain .input .int "gl_InvocationID",
      .plain .output (.vec 4) "gl_Position",
      .plain .output .float "gl_PointSize",
      arrayOf arrayBound (.plain .output .float "gl_ClipDistance"),
      .plain .output .int "gl_PrimitiveID",
      .plain .output .int "gl_Layer" ]
  | .fragment =>
    [ .plain .input (.vec 4) "gl_FragCoord",
      .plain .input .bool "gl_FrontFacing",
      .plain .input (.vec 2) "gl_PointCoord",
      .plain .input .int "gl_SampleID",
      .plain .input (.vec 2) "gl_SamplePosition",
      arrayOf 1 (.plain .input .int "gl_SampleMaskIn"),
      arrayOf arrayBound (.plain .input .float "gl_ClipDistance"),
      .plain .input .int "gl_PrimitiveID",
      .plain .input .int "gl_Layer",
      .plain .input .int "gl_ViewportIndex",
      .plain .output .float "gl_FragDepth",
      arrayOf 1 (.plain .output .int "gl_SampleMask") ]

/-- The built-in variable of exactly that name. -/
def find? (stage : Stage) (name : String) : Option Variable :=
  (table stage).find? fun v => v.name = name

end Shaderwright.Builtin

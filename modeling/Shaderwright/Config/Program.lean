import Shaderwright.Files.Path
import Shaderwright.Shader.Feature

/-!
# Programs of stage files

All that is needed to build one program from a vertex and a fragment file.
-/

namespace Shaderwright

structure FileProgram where
  shaderDir : String
  vertex : String
  fragment : String
  /-- The name at place `i` is bound to location `i`. -/
  attributes : List String := defaultAttributes
deriving DecidableEq, Repr

namespace FileProgram

/-- The name of the program: its two file names. -/
def name (p : FileProgram) : String := p.vertex ++ p.fragment

def vertexPath (p : FileProgram) : String := Path.join p.shaderDir p.vertex

def fragmentPath (p : FileProgram) : String := Path.join p.shaderDir p.fragment

/-- Both stage paths and the attributes in binding order. -/
def cacheKey (p : FileProgram) : String :=
  p.vertexPath ++ "|" ++ p.fragmentPath ++ "|" ++ Text.join "," p.attributes

end FileProgram

end Shaderwright

import Shaderwright.Stage

/-!
# Events

What the program cache and the command line report while they work, with the
level and the fields of each report.
-/

namespace Shaderwright

/-- Primitive assembly that a program expects at draw time. -/
inductive Topology where
  | triangles
  /-- With a tessellation stage linked in. -/
  | patches
deriving DecidableEq, Repr

def Topology.label : Topology → String
  | .triangles => "Triangles"
  | .patches => "Patches"

/-- The place of a program in its cache. -/
structure ProgramId where
  index : Nat
deriving DecidableEq, Repr

def ProgramId.text (id : ProgramId) : String := "#" ++ Nat.repr id.index

inductive Level where
  | trace
  | debug
  | info
  | error
deriving DecidableEq, Repr

def Level.label : Level → String
  | .trace => "TRACE"
  | .debug => "DEBUG"
  | .info => "INFO"
  | .error => "ERROR"

inductive Event where
  | cacheHit (key : String)
  | compiling (key : String) (stage : Stage)
  | compileFailed (key : String) (stage : Stage) (log source : String)
  | linked (name : String) (id : ProgramId) (topology : Topology)
  | linkFailed (name log : String)
  | releasing (key : String)
  | inactiveUniform (program uniform : String)
  | configLoaded (path shaderDir : String) (programs : Nat)
deriving DecidableEq, Repr

namespace Event

def level : Event → Level
  | .cacheHit _ | .compiling _ _ | .releasing _ | .configLoaded _ _ _ => .debug
  | .linked _ _ _ => .info
  | .compileFailed _ _ _ _ | .linkFailed _ _ => .error
  | .inactiveUniform _ _ => .trace

def message : Event → String
  | .cacheHit _ => "program cache hit"
  | .compiling _ _ => "compiling stage"
  | .compileFailed _ _ log source => "compile failed:\n" ++ log ++ "\n" ++ source
  | .linked _ _ _ => "linked program"
  | .linkFailed _ log => "link failed:\n" ++ log
  | .releasing _ => "releasing stage object"
  | .inactiveUniform _ _ => "uniform not active; sets are ignored"
  | .configLoaded _ _ _ => "loaded configuration"

/-- The named values of an event. -/
def fields : Event → List (String × String)
  | .cacheHit key => [("program", key)]
  | .compiling key stage | .compileFailed key stage _ _ =>
      [("stage", key), ("kind", stage.name)]
  | .linked name id topology =>
      [("program", name), ("id", id.text), ("topology", topology.label)]
  | .linkFailed name _ => [("program", name)]
  | .releasing key => [("stage", key)]
  | .inactiveUniform program uniform => [("program", program), ("uniform", uniform)]
  | .configLoaded path shaderDir programs =>
      [("path", path), ("shader_dir", shaderDir), ("programs", Nat.repr programs)]

end Event

end Shaderwright

import Shaderwright.Config.Program
import Shaderwright.Text.Blank
import Shaderwright.Version

/-!
# Configurations

A configuration names the programs that are built from stage files, the directory
of those files and the language version. Programs stand in the order of their
names and no name stands twice. `fault?` is the first rule that a configuration
breaks, if it breaks one.
-/

namespace Shaderwright

/-- The two files of a program. Without attributes of its own it has the default
ones. -/
structure StageFiles where
  vertex : String
  fragment : String
  attributes : Option (List String) := none
deriving DecidableEq, Repr

/-- The directory of the stage files of a configuration that names none. -/
def defaultShaderDir : String := "./data"

structure Config where
  version : UInt32
  shaderDir : String := defaultShaderDir
  glslVersion : Option Version := none
  programs : List (String × StageFiles) := []
deriving DecidableEq, Repr

namespace Config

/-- Puts an entry at the place of its name, in the place of any of that name. -/
def putByName (name : String) (a : α) : List (String × α) → List (String × α)
  | [] => [(name, a)]
  | (other, b) :: rest =>
      if name < other then (name, a) :: (other, b) :: rest
      else if name = other then (name, a) :: rest
      else (other, b) :: putByName name a rest

def programNames (c : Config) : List String := c.programs.map Prod.fst

/-- All that is needed to build the program of a name. -/
def program? (c : Config) (name : String) : Option FileProgram :=
  (c.programs.lookup name).map fun files =>
    { shaderDir := c.shaderDir
      vertex := files.vertex
      fragment := files.fragment
      attributes := files.attributes.getD defaultAttributes }

/-! ## Rules -/

/-- How a configuration breaks the rules. -/
inductive Fault where
  | unsupportedVersion (version : UInt32)
  | noShaderDir
  | unnamedProgram
  | unnamedFile (program : String)
  | noAttributes (program : String)
  | unnamedAttribute (program : String) (location : Nat)
deriving DecidableEq, Repr

def Fault.message : Fault → String
  | .unsupportedVersion version =>
      "unsupported config version " ++ Nat.repr version.toNat ++ "; expected 1"
  | .noShaderDir => "shader_dir may not be empty"
  | .unnamedProgram => "program name may not be empty"
  | .unnamedFile program =>
      "program '" ++ program ++ "' must name both a vertex and a fragment file"
  | .noAttributes program =>
      "program '" ++ program ++ "' attributes must list at least one name"
  | .unnamedAttribute program location =>
      "program '" ++ program ++ "' attribute " ++ Nat.repr location ++ " is empty"

/-- Blank names are no names. -/
def programFault? (name : String) (files : StageFiles) : Option Fault :=
  if Text.isBlankText name then some .unnamedProgram
  else if Text.isBlankText files.vertex ∨ Text.isBlankText files.fragment then
    some (.unnamedFile name)
  else
    match files.attributes with
    | none => none
    | some [] => some (.noAttributes name)
    | some attributes =>
        (attributes.findIdx? Text.isBlankText).map (.unnamedAttribute name)

def fault? (c : Config) : Option Fault :=
  if c.version ≠ 1 then some (.unsupportedVersion c.version)
  else if c.shaderDir = "" then some .noShaderDir
  else c.programs.findSome? fun (name, files) => programFault? name files

end Config

end Shaderwright

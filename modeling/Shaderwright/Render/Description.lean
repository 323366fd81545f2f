import Shaderwright.Render.Context
import Shaderwright.Text.Quoted

/-!
# Describing a cache

The state of a cache as one line of text, program by program, for handles that
have a text.
-/

namespace Shaderwright

variable {δ : Type} [Device δ]

/-- A record with its fields. -/
def described (name : String) (fields : List (String × String)) : String :=
  name ++ " \x7b "
    ++ Text.join ", " (fields.map fun (field, value) => field ++ ": " ++ value) ++ " \x7d"

def Version.describe (v : Version) : String :=
  described "GlslVersion"
    [("major", Nat.repr v.major.toNat), ("minor", Nat.repr v.minor.toNat)]

def Program.describe (handleText : Device.ProgramHandle δ → String) (p : Program δ) : String :=
  described "ShaderProgram"
    [ ("handle", handleText p.handle),
      ("topology", p.topology.label),
      ("name", Text.quoted p.name),
      ("uniforms", Nat.repr p.uniforms.length),
      ("texture_unit", Nat.repr p.textureUnit.toNat) ]

def Cache.describe (handleText : Device.ProgramHandle δ → String) (c : Cache δ) : String :=
  described "ShaderCache"
    [ ("version",
        match c.version with
        | none => "None"
        | some v => "Some(" ++ v.describe ++ ")"),
      ("stages", Nat.repr c.stages.length),
      ("programs", "[" ++ Text.join ", " (c.programs.map (Program.describe handleText)) ++ "]") ]

end Shaderwright

import Shaderwright.Config.Basic
import Shaderwright.Decimal.Layout
import Shaderwright.Text.Quoted
import Shaderwright.Toml.Value

/-!
# Configurations as TOML

`toToml` writes a configuration as a table and `ofToml` reads one. Keys are read
in the order of the table and unknown keys are passed over; a missing field shows
when the table ends. A language version is a text, or a number that is rounded to
one decimal and then read as a text.
-/

namespace Shaderwright

open Toml (Value)

/-! ## Faults -/

/-- What a field has to be. -/
inductive Wanted where
  | count
  | path
  | map
  | program
  | string
  | sequence
deriving DecidableEq, Repr

def Wanted.label : Wanted → String
  | .count => "u32"
  | .path => "path string"
  | .map => "a map"
  | .program => "struct ProgramConfig"
  | .string => "a string"
  | .sequence => "a sequence"

/-- Why a table is no configuration. -/
inductive DecodeError where
  | missing (field : String)
  | mismatch (found : Value) (wanted : Wanted)
  | outOfRange (n : Int)
  | tooShort (length : Nat)
  | noVersion
  | badVersion (cause : Version.Invalid)
deriving Repr

/-- What a value is, and which, if that is short. -/
def Toml.Value.described : Value → String
  | .string s => "string " ++ Text.quoted s
  | .integer n => "integer `" ++ toString n ++ "`"
  | .float x => "floating point `" ++ Decimal.plain Decimal.double x.toBits.toNat ++ "`"
  | .boolean b => "boolean `" ++ (if b then "true" else "false") ++ "`"
  | .array _ => "sequence"
  | .datetime _ | .table _ => "map"

def DecodeError.message : DecodeError → String
  | .missing field => "missing field `" ++ field ++ "`"
  | .mismatch found wanted =>
      "invalid type: " ++ found.described ++ ", expected " ++ wanted.label
  | .outOfRange n => "invalid value: integer `" ++ toString n ++ "`, expected u32"
  | .tooShort length =>
      "invalid length " ++ Nat.repr length ++ ", expected struct ProgramConfig with 3 elements"
  | .noVersion => "data did not match any variant of untagged enum Helper"
  | .badVersion cause => cause.message

/-! ## Reading values -/

namespace Toml.Value

def asCount (v : Value) : Except DecodeError UInt32 :=
  match v with
  | .integer n =>
      if 0 ≤ n ∧ n < 4294967296 then .ok (UInt32.ofNat n.toNat) else .error (.outOfRange n)
  | v => .error (.mismatch v .count)

def asText (wanted : Wanted) (v : Value) : Except DecodeError String :=
  match v with
  | .string s => .ok s
  | v => .error (.mismatch v wanted)

def asTexts (v : Value) : Except DecodeError (List String) :=
  match v with
  | .array items => items.mapM (asText .string)
  | v => .error (.mismatch v .sequence)

/-- The entries of a table. A date counts as a table that holds its text. -/
def entries? : Value → Option (List (String × Value))
  | .table entries => some entries
  | .datetime s => some [("$__toml_private_datetime", .string s)]
  | _ => none

def versionOfText (s : String) : Except DecodeError Version :=
  match Version.parse s with
  | .ok version => .ok version
  | .error cause => .error (.badVersion cause)

def versionOfNumber (x : Float) : Except DecodeError Version :=
  versionOfText (Decimal.tenths (Decimal.double.decode x.toBits.toNat))

def asVersion (v : Value) : Except DecodeError Version :=
  match v with
  | .string s => versionOfText s
  | .integer n => versionOfNumber (Float.ofInt n)
  | .float x => versionOfNumber x
  | _ => .error .noVersion

end Toml.Value

/-! ## Reading records -/

namespace StageFiles

/-- What was read of a program so far. -/
structure Draft where
  vertex : Option String := none
  fragment : Option String := none
  attributes : Option (List String) := none

def Draft.read (d : Draft) (key : String) (v : Value) : Except DecodeError Draft := do
  match key with
  | "vertex" => return { d with vertex := some (← v.asText .string) }
  | "fragment" => return { d with fragment := some (← v.asText .string) }
  | "attributes" => return { d with attributes := some (← v.asTexts) }
  | _ => return d

def Draft.finish (d : Draft) : Except DecodeError StageFiles :=
  match d.vertex, d.fragment with
  | some vertex, some fragment => .ok { vertex, fragment, attributes := d.attributes }
  | none, _ => .error (.missing "vertex")
  | some _, none => .error (.missing "fragment")

/-- The fields in a row. Items after the third are passed over. -/
def ofItems : List Value → Except DecodeError StageFiles
  | [] => .error (.tooShort 0)
  | [v] => do
      let _ ← v.asText .string
      .error (.tooShort 1)
  | v :: f :: rest => do
      let vertex ← v.asText .string
      let fragment ← f.asText .string
      match rest with
      | [] => return { vertex, fragment }
      | a :: _ => return { vertex, fragment, attributes := some (← a.asTexts) }

/-- A program, as a table or as a row of fields. -/
def ofToml (v : Value) : Except DecodeError StageFiles := do
  match v with
  | .array items => ofItems items
  | v =>
      match v.entries? with
      | none => .error (.mismatch v .program)
      | some entries =>
          let d ← entries.foldlM (fun (d : Draft) (key, v) => d.read key v) {}
          d.finish

end StageFiles

namespace Config

def programsOfToml (v : Value) : Except DecodeError (List (String × StageFiles)) :=
  match v.entries? with
  | none => .error (.mismatch v .map)
  | some entries =>
      entries.foldlM
        (fun ps (name, v) => (StageFiles.ofToml v).map fun p => putByName name p ps) []

/-- What was read of a configuration so far. -/
structure Draft where
  version : Option UInt32 := none
  shaderDir : Option String := none
  glslVersion : Option Version := none
  programs : List (String × StageFiles) := []

def Draft.read (d : Draft) (key : String) (v : Value) : Except DecodeError Draft := do
  match key with
  | "version" => return { d with version := some (← v.asCount) }
  | "shader_dir" => return { d with shaderDir := some (← v.asText .path) }
  | "glsl_version" => return { d with glslVersion := some (← v.asVersion) }
  | "programs" => return { d with programs := ← programsOfToml v }
  | _ => return d

def Draft.finish (d : Draft) : Except DecodeError Config :=
  match d.version with
  | none => .error (.missing "version")
  | some version =>
      .ok { version, shaderDir := d.shaderDir.getD defaultShaderDir,
            glslVersion := d.glslVersion, programs := d.programs }

def ofToml (entries : List (String × Value)) : Except DecodeError Config := do
  let d ← entries.foldlM (fun (d : Draft) (key, v) => d.read key v) {}
  d.finish

end Config

/-! ## Writing -/

def StageFiles.toToml (p : StageFiles) : Value :=
  .table ([("vertex", .string p.vertex), ("fragment", .string p.fragment)] ++
    match p.attributes with
    | some names => [("attributes", .array (names.map .string))]
    | none => [])

def Config.toToml (c : Config) : List (String × Value) :=
  [("version", .integer c.version.toNat), ("shader_dir", .string c.shaderDir)] ++
    (match c.glslVersion with
    | some version => [("glsl_version", .string version.text)]
    | none => []) ++
    [("programs", .table (c.programs.map fun (name, p) => (name, p.toToml)))]

end Shaderwright

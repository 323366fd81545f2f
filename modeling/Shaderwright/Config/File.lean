import Shaderwright.Config.Toml
import Shaderwright.Files.Tree
import Shaderwright.Toml.Parser

/-!
# Configuration files

From a text or a file to a configuration that keeps all rules. Syntax is settled
first, then the fields, then the rules. The stage files of a configuration file
are looked for beside it.
-/

namespace Shaderwright.Config

inductive LoadError where
  | unreadable (path : String) (cause : ReadError)
  | malformed
  | undecodable (cause : DecodeError)
  | invalid (fault : Fault)
deriving Repr

namespace LoadError

/-- The reason a text could not be taken for a configuration. -/
def parseText : Option DecodeError → String
  | none => "TOML parse error"
  | some cause => "TOML parse error: " ++ cause.message

def message : LoadError → String
  | .unreadable path cause => "failed to read configuration " ++ path ++ ": " ++ cause.message
  | .malformed => "failed to parse configuration: " ++ parseText none
  | .undecodable cause => "failed to parse configuration: " ++ parseText (some cause)
  | .invalid fault => "invalid configuration: " ++ fault.message

/-- What lies behind the error, where something does. -/
def cause? : LoadError → Option String
  | .unreadable _ cause => some cause.message
  | .malformed => some (parseText none)
  | .undecodable cause => some (parseText (some cause))
  | .invalid _ => none

end LoadError

/-- Reads a configuration and checks its rules. -/
def parse (text : String) : Except LoadError Config :=
  match Toml.parse? text with
  | none => .error .malformed
  | some entries =>
      match ofToml entries with
      | .error cause => .error (.undecodable cause)
      | .ok c =>
          match c.fault? with
          | some fault => .error (.invalid fault)
          | none => .ok c

/-- Takes a relative shader directory to lie in the directory of the file. -/
def resolve (path : String) (c : Config) : Config :=
  if Path.isAbsolute c.shaderDir then c
  else
    match Path.parent? path with
    | some dir => { c with shaderDir := Path.join dir c.shaderDir }
    | none => c

def load (read : Reader) (path : String) : Except LoadError Config :=
  match read path with
  | .error cause => .error (.unreadable path cause)
  | .ok text => (parse text).map (resolve path)

end Shaderwright.Config

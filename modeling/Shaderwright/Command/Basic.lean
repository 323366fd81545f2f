import Shaderwright.Preset
import Shaderwright.Version

/-!
# Commands

What can be asked for, the words that ask for it, and what is said in place of an
answer when a command line asks for help or makes no sense.
-/

namespace Shaderwright

inductive Command where
  /-- Print the source of the selected stages of a preset. -/
  | emit (preset : Preset) (stages : StageSelection) (version : Option Version)
  | presets
  /-- Check a configuration file and list its programs. -/
  | config (file : Option String)
  /-- Link presets, or the programs of a configuration file if there are none. -/
  | link (presets : List Preset) (file : Option String) (version : Option Version)
deriving DecidableEq, Repr

/-! ## Words -/

/-- A place for a value on a command line. -/
inductive Parameter where
  | preset
  | presets
  | stage
  | version
  | file
deriving DecidableEq, Repr

namespace Parameter

def label : Parameter → String
  | .preset => "<PRESET>"
  | .presets => "[PRESET]..."
  | .stage => "--stage <STAGE>"
  | .version => "--glsl <MAJOR.MINOR>"
  | .file => "--file <FILE>"

/-- The name of the option that takes the value, if an option does. -/
def option? : Parameter → Option String
  | .preset | .presets => none
  | .stage => some "stage"
  | .version => some "glsl"
  | .file => some "file"

end Parameter

/-- The word that chooses a command. -/
inductive Verb where
  | emit
  | presets
  | config
  | link
deriving DecidableEq, Repr

namespace Verb

def all : List Verb := [.emit, .presets, .config, .link]

def name : Verb → String
  | .emit => "emit"
  | .presets => "presets"
  | .config => "config"
  | .link => "link"

def about : Verb → String
  | .emit => "Print the generated source of a preset composition"
  | .presets => "List the built-in preset compositions"
  | .config => "Validate a configuration file and list its programs"
  | .link => "Compile and link presets or configured programs without a GPU"

def ofName? (name : String) : Option Verb := all.find? fun v => v.name = name

/-- The values that are given by an option. -/
def options : Verb → List Parameter
  | .emit => [.stage, .version]
  | .presets => []
  | .config => [.file]
  | .link => [.file, .version]

/-- The values that are given bare. -/
def operands : Verb → List Parameter
  | .emit => [.preset]
  | .presets | .config => []
  | .link => [.presets]

end Verb

/-! ## Notices -/

/-- Why a value does not do. -/
inductive ValueFault where
  | preset (cause : Preset.Unknown)
  | stage (cause : StageSelection.Invalid)
  | version (cause : Version.Invalid)
deriving DecidableEq, Repr

def ValueFault.message : ValueFault → String
  | .preset cause => cause.message
  | .stage cause => cause.message
  | .version cause => cause.message

/-- What is said in place of running a command. -/
inductive Notice where
  | help (about : String)
  | version
  | noCommand
  | unknownCommand (word : String)
  | unexpected (word : String)
  | incomplete
  | noValue (parameter : Parameter)
  | badValue (value : String) (parameter : Parameter) (cause : ValueFault)
  | repeated (parameter : Parameter)
  | surplusValue (value flag : String)
deriving DecidableEq, Repr

namespace Notice

/-- What the program is for. -/
def programAbout : String := "Compose, inspect and link generated GLSL programs"

/-- What the command that prints help is for. -/
def helpAbout : String := "Print this message or the help of the given subcommand(s)"

def message : Notice → String
  | .help about => about
  | .version => "seen 0.1.0"
  | .noCommand => programAbout
  | .unknownCommand word => "error: unrecognized subcommand '" ++ word ++ "'"
  | .unexpected word => "error: unexpected argument '" ++ word ++ "' found"
  | .incomplete => "error: the following required arguments were not provided:"
  | .noValue parameter =>
      "error: a value is required for '" ++ parameter.label ++ "' but none was supplied"
  | .badValue value parameter cause =>
      "error: invalid value '" ++ value ++ "' for '" ++ parameter.label ++ "': " ++ cause.message
  | .repeated parameter =>
      "error: the argument '" ++ parameter.label ++ "' cannot be used multiple times"
  | .surplusValue value flag =>
      "error: unexpected value '" ++ value ++ "' for '" ++ flag ++
        "' found; no more were expected"

/-- Help and the version are answers to a question, all else is an error. -/
def status : Notice → UInt32
  | .help _ | .version => 0
  | _ => 2

end Notice

end Shaderwright

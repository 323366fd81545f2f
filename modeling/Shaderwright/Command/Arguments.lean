import Shaderwright.Command.Basic

/-!
# Command lines

Words are read from left to right. A value that was given is pending until the
next word that is understood, and is judged only then: a word that makes no sense
is reported before a bad value to its left. Behind `--` every word is an operand.
Where no option names the configuration file, the environment may.
-/

namespace Shaderwright

/-! ## Words -/

inductive Word where
  /-- The two dashes that end the options. -/
  | separator
  | long (name : String) (value : Option String)
  /-- A dash and letters, of which the first decides. -/
  | short (letter : Char)
  | plain
deriving DecidableEq, Repr

def Word.ofText (text : String) : Word :=
  match text.toList with
  | ['-', '-'] => .separator
  | '-' :: '-' :: cs =>
      match Text.splitAt? '=' cs with
      | some (name, value) => .long (String.ofList name) (some (String.ofList value))
      | none => .long (String.ofList cs) none
  | '-' :: letter :: _ => .short letter
  | _ => .plain

/-! ## Values -/

/-- The values that were taken. -/
structure Settings where
  presets : List Preset := []
  stages : Option StageSelection := none
  version : Option Version := none
  file : Option String := none
deriving DecidableEq, Repr

namespace Settings

/-- Whether a value was taken that can be given only once. -/
def holds (s : Settings) : Parameter → Bool
  | .preset | .presets => false
  | .stage => s.stages.isSome
  | .version => s.version.isSome
  | .file => s.file.isSome

/-- Takes one value. -/
def take (s : Settings) (p : Parameter) (value : String) : Except Notice Settings :=
  match p with
  | .preset | .presets =>
      match Preset.parse value with
      | .ok preset => .ok { s with presets := s.presets ++ [preset] }
      | .error cause => .error (.badValue value p (.preset cause))
  | .stage =>
      match StageSelection.parse value with
      | .ok stages => .ok { s with stages := some stages }
      | .error cause => .error (.badValue value p (.stage cause))
  | .version =>
      match Version.parse value with
      | .ok version => .ok { s with version := some version }
      | .error cause => .error (.badValue value p (.version cause))
  | .file => if value = "" then .error (.noValue p) else .ok { s with file := some value }

/-- Takes the values given to a parameter in a row. -/
def takeAll (s : Settings) (p : Parameter) (values : List String) : Except Notice Settings :=
  if values = [] then .error (.noValue p)
  else if s.holds p then .error (.repeated p)
  else values.foldlM (fun s value => s.take p value) s

end Settings

/-! ## Reading the words of a command -/

/-- How far the words of a command were read. -/
structure Progress where
  settings : Settings := {}
  /-- The parameter of the last value, with the values given to it in a row. An
  option that waits for its value has none yet. -/
  pending : Option (Parameter × List String) := none
  /-- The parameters that bare words go to. -/
  operands : List Parameter := []
  operandsOnly : Bool := false

namespace Progress

/-- Takes what is pending. -/
def settle (r : Progress) : Except Notice Progress :=
  match r.pending with
  | none => .ok r
  | some (p, values) =>
      (r.settings.takeAll p values).map fun settings => { r with settings, pending := none }

/-- Reads a bare word. -/
def operand (r : Progress) (word : String) : Except Notice Progress :=
  match r.operands with
  | [] => .error (.unexpected word)
  | p :: rest =>
      match r.pending with
      | some (.presets, values) =>
          .ok { r with pending := some (.presets, values ++ [word]) }
      | _ =>
          r.settle.map fun r =>
            { r with
              pending := some (p, [word])
              operands := if p = .presets then p :: rest else rest }

/-- Settles what is pending, and says what the word is answered with. -/
def interrupt (r : Progress) (notice : Notice) : Except Notice Progress :=
  match r.settle with
  | .ok _ => .error notice
  | .error e => .error e

/-- Reads an option. -/
def option (verb : Verb) (r : Progress) (name : String) (value : Option String) :
    Except Notice Progress :=
  match verb.options.find? fun p => p.option? = some name with
  | none => .error (.unexpected ("--" ++ name))
  | some p =>
      match r.settle with
      | .error e => .error e
      | .ok r =>
          match value with
          | none => .ok { r with pending := some (p, []) }
          | some v => (r.settings.takeAll p [v]).map fun settings => { r with settings }

/-- Reads one word. -/
def read (verb : Verb) (r : Progress) (word : String) : Except Notice Progress :=
  if r.operandsOnly then r.operand word
  else
    match Word.ofText word with
    | .separator => .ok { r with operandsOnly := true }
    | .long "help" none | .short 'h' => r.interrupt (.help verb.about)
    | .long "help" (some value) => .error (.surplusValue value "--help")
    | .long name value => option verb r name value
    | .short letter => .error (.unexpected (String.ofList ['-', letter]))
    | .plain =>
        match r.pending with
        | some (p, []) => .ok { r with pending := some (p, [word]) }
        | _ => r.operand word

end Progress

/-- The command that a verb and the values taken make up. -/
def Verb.command (verb : Verb) (s : Settings) : Except Notice Command :=
  match verb with
  | .emit =>
      match s.presets with
      | [] => .error .incomplete
      | preset :: _ => .ok (.emit preset (s.stages.getD .all) s.version)
  | .presets => .ok .presets
  | .config => .ok (.config s.file)
  | .link => .ok (.link s.presets s.file s.version)

/-- Takes the file that the environment names, unless there is one already. -/
def Settings.takeEnvironment (s : Settings) (verb : Verb) (file : Option String) :
    Except Notice Settings :=
  match file with
  | some value =>
      if verb.options.contains .file && s.file.isNone then s.takeAll .file [value] else .ok s
  | none => .ok s

/-- Reads all words behind a verb. -/
def Verb.parse (file : Option String) (verb : Verb) (words : List String) :
    Except Notice Command := do
  let start : Progress := { operands := verb.operands }
  let r ← words.foldlM (fun r word => r.read verb word) start
  let r ← r.settle
  let s ← r.settings.takeEnvironment verb file
  verb.command s

/-! ## Reading the verb -/

/-- Whether a word chooses a command, the one that prints help included. -/
def isCommandWord (word : String) : Bool := word = "help" || (Verb.ofName? word).isSome

/-- What the words behind `help` are answered with. -/
def helpOn : List String → Notice
  | [] => .help Notice.programAbout
  | word :: rest =>
      if isCommandWord word then
        match rest with
        | [] => .help (((Verb.ofName? word).map Verb.about).getD Notice.helpAbout)
        | next :: _ => .unknownCommand next
      else .unknownCommand word

namespace Command

/-- Reads words up to the verb and leaves the rest to it. -/
def parseFrom (file : Option String) (operandsOnly : Bool) : List String → Except Notice Command
  | [] => .error .noCommand
  | word :: rest =>
      if operandsOnly then
        .error (if isCommandWord word then .unexpected word else .unknownCommand word)
      else
        match Word.ofText word with
        | .separator => parseFrom file true rest
        | .long "help" none | .short 'h' => .error (.help Notice.programAbout)
        | .long "version" none | .short 'V' => .error .version
        | .long name value =>
            match value with
            | some v =>
                if name = "help" ∨ name = "version" then
                  .error (.surplusValue v ("--" ++ name))
                else .error (.unexpected ("--" ++ name))
            | none => .error (.unexpected ("--" ++ name))
        | .short letter => .error (.unexpected (String.ofList ['-', letter]))
        | .plain =>
            match Verb.ofName? word with
            | some verb => verb.parse file rest
            | none => .error (if word = "help" then helpOn rest else .unknownCommand word)

/-- The command that the words of a command line ask for; the environment may name
a configuration file. -/
def parse (file : Option String) (words : List String) : Except Notice Command :=
  parseFrom file false words

end Command

end Shaderwright

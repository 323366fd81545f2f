import Shaderwright.Stage
import Shaderwright.Variable.Lookup
import Shaderwright.Variable.Builtin

/-!
# Stages under construction

A shader holds its declarations, one ordered list per storage, and the lines of
its main function with their block depth. Asking for a variable by name gives the
one that is there or declares it; a wildcard only ever finds. Nothing is taken
away again: lists and lines grow at their ends.
-/

namespace Shaderwright

/-- One line of the main function. -/
inductive Line where
  | statement (e : Expr)
  | openIf (condition : Expr)
  | close
deriving DecidableEq, Repr

structure Statement where
  depth : Nat
  line : Line
deriving DecidableEq, Repr

/-- The four lists of declarations. -/
inductive Storage where
  | input
  | output
  | parameter
  | local
deriving DecidableEq, Repr

/-- The role of what is declared in a list. -/
def Storage.role : Storage → Role
  | .input => .input
  | .output => .output
  | .parameter => .uniform
  | .local => .local

structure Shader where
  name : String
  stage : Stage
  inputs : List Variable := []
  outputs : List Variable := []
  parameters : List Variable := []
  locals : List Variable := []
  statements : List Statement := []
  depth : Nat := 1
deriving Repr, DecidableEq

/-- Why a shader cannot be extended as asked. -/
inductive Fault where
  | wildcardUnmatched (pattern : String)
  | noBuiltin (stage : Stage) (shader name : String)
  | noSlot (feature shader : String) (slot : Slot)
  | noLocal (feature shader name : String)
  | noInput (feature shader pattern : String)
  | noColor (feature shader : String)
  | notAnArray (cause : Variable.NotAnArray)
deriving DecidableEq, Repr

def Fault.message : Fault → String
  | .wildcardUnmatched pattern =>
      "cannot declare a variable from wildcard pattern '" ++ pattern ++ "'; nothing matched"
  | .noBuiltin stage shader name =>
      stage.name ++ " stage '" ++ shader ++ "' has no builtin '" ++ name ++ "'"
  | .noSlot feature shader slot =>
      feature ++ ": stage '" ++ shader ++ "' has no " ++ slot.stem ++ " input"
  | .noLocal feature shader name =>
      feature ++ ": stage '" ++ shader ++ "' has no local '" ++ name
        ++ "'; feature order violated"
  | .noInput feature shader pattern =>
      feature ++ ": stage '" ++ shader ++ "' has no input '" ++ pattern ++ "'"
  | .noColor feature shader =>
      feature ++ ": stage '" ++ shader ++ "' has no 'color' output; run a colour feature first"
  | .notAnArray cause => cause.message

namespace Variable

/-- Applies the changes to the variable called `name`, declaring it first if there
is none. -/
def put (role : Role) (name : String) (changes : List Change) (vars : List Variable) :
    List Variable :=
  match updateLast? (fun v => v.name == name) (fun v => v.changeAll changes) vars with
  | some updated => updated
  | none => vars ++ [(plain role .unset name).changeAll changes]

end Variable

namespace Shader

/-- A shader with nothing in it. -/
def empty (name : String) (stage : Stage) : Shader := { name, stage }

def suffix (s : Shader) : String := s.stage.suffix

/-! ## Declarations -/

def vars (s : Shader) : Storage → List Variable
  | .input => s.inputs
  | .output => s.outputs
  | .parameter => s.parameters
  | .local => s.locals

def withVars (s : Shader) (storage : Storage) (vars : List Variable) : Shader :=
  match storage with
  | .input => { s with inputs := vars }
  | .output => { s with outputs := vars }
  | .parameter => { s with parameters := vars }
  | .local => { s with locals := vars }

def find? (s : Shader) (storage : Storage) (pattern : String) : Option Variable :=
  Variable.lookup? pattern (s.vars storage)

/-- Changes the variable of exactly that name, declared if need be. -/
def put (s : Shader) (storage : Storage) (name : String) (changes : List Variable.Change) :
    Shader :=
  s.withVars storage (Variable.put storage.role name changes (s.vars storage))

/-- Changes the variable that a pattern finds. A plain name that is not there is
declared, a wildcard is refused. -/
def declare (s : Shader) (storage : Storage) (pattern : String)
    (changes : List Variable.Change) : Except Fault Shader :=
  match Pattern.ofString pattern with
  | .exact name => .ok (s.put storage name changes)
  | .containing part =>
      match updateLast? (fun v => Text.contains v.name part) (fun v => v.changeAll changes)
          (s.vars storage) with
      | some updated => .ok (s.withVars storage updated)
      | none => .error (.wildcardUnmatched pattern)

/-- The most recent input bound to a slot, else the most recent one whose name
holds the slot's stem and an underscore. -/
def slotInput? (s : Shader) (slot : Slot) : Option Variable :=
  (findLast? (fun v => v.slot = some slot) s.inputs).or (s.find? .input (slot.stem ++ "_*"))

def builtin? (s : Shader) (name : String) : Option Variable :=
  Builtin.find? s.stage name

def requireBuiltin (s : Shader) (name : String) : Except Fault Variable :=
  match s.builtin? name with
  | some v => .ok v
  | none => .error (.noBuiltin s.stage s.name name)

/-! ## Lines -/

def push (s : Shader) (line : Line) : Shader :=
  { s with statements := s.statements ++ [⟨s.depth, line⟩] }

/-- Appends a statement at the current depth. -/
def next (s : Shader) (e : Expr) : Shader := s.push (.statement e)

def openIf (s : Shader) (condition : Expr) : Shader :=
  { s.push (.openIf condition) with depth := s.depth + 1 }

def closeIf (s : Shader) : Shader :=
  { s with depth := s.depth - 1 }.push .close

/-- A conditional whose block is what `body` appends. -/
def ifThen [Monad m] (s : Shader) (condition : Expr) (body : Shader → m Shader) : m Shader := do
  let inner ← body (s.openIf condition)
  return inner.closeIf

end Shader

end Shaderwright

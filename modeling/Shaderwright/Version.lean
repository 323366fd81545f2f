import Shaderwright.Text.Blank
import Shaderwright.Text.Words

/-!
# Language versions

A version is written `MAJOR.MINOR`: two decimal numbers that fit a byte, each
with an optional `+` and any leading zeros, the major one not zero and the minor
one a single digit in value.
-/

namespace Shaderwright

structure Version where
  major : UInt8
  minor : UInt8
deriving DecidableEq, Repr

namespace Version

/-- The form of the version header: 4.1 is 410. -/
def number (v : Version) : Nat := v.major.toNat * 100 + v.minor.toNat * 10

def text (v : Version) : String :=
  Nat.repr v.major.toNat ++ "." ++ Nat.repr v.minor.toNat

/-- A text that is no version, as it was given. -/
structure Invalid where
  text : String
deriving DecidableEq, Repr

def Invalid.message (i : Invalid) : String :=
  "invalid GLSL version '" ++ i.text ++ "', expected MAJOR.MINOR (e.g. 4.1)"

/-- The value of a digit string, most significant digit first. -/
def digitsValue (cs : List Char) : Nat :=
  cs.foldl (fun n c => n * 10 + (c.toNat - '0'.toNat)) 0

def unsigned? (cs : List Char) : Option UInt8 :=
  if cs ≠ [] ∧ cs.all Char.isDigit ∧ digitsValue cs < 256 then
    some (UInt8.ofNat (digitsValue cs))
  else
    none

/-- A decimal number below 256, with at most one `+` before it. -/
def byte? : List Char → Option UInt8
  | '+' :: cs => unsigned? cs
  | cs => unsigned? cs

/-- The two numbers around the first point, in range. -/
def read? (cs : List Char) : Option Version :=
  match Text.splitAt? '.' cs with
  | none => none
  | some (before, after) =>
      match byte? before, byte? after with
      | some major, some minor =>
          if major ≠ 0 ∧ minor ≤ 9 then some ⟨major, minor⟩ else none
      | _, _ => none

/-- Reads a version, whatever the blanks around it. -/
def parse (s : String) : Except Invalid Version :=
  match read? (Text.trim s).toList with
  | some v => .ok v
  | none => .error ⟨s⟩

end Version

end Shaderwright

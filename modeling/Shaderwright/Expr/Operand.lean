import Shaderwright.Expr.Basic

/-!
# Text that reads as one operand

An identifier, a number, a call, a chain of members and indices, or a bracketed
group, with at most one sign before it. Other text has to be grouped before an
operator may stand beside it.
-/

namespace Shaderwright.Expr

/-- The signs a literal may begin with. -/
def isSign (c : Char) : Bool := c == '-' || c == '!'

def isOpening (c : Char) : Bool := c == '(' || c == '['

def isClosing (c : Char) : Bool := c == ')' || c == ']'

/-- Letters, digits, underscore and point, all ASCII. -/
def isOperandChar (c : Char) : Bool := c.isAlphanum || c == '_' || c == '.'

/-- Scans from inside `depth` brackets: every bracket is closed again, and
outside of brackets stand operand characters only. -/
def scan : Nat → List Char → Bool
  | depth, [] => depth == 0
  | depth, c :: cs =>
      if isOpening c then scan (depth + 1) cs
      else if isClosing c then
        match depth with
        | 0 => false
        | inner + 1 => scan inner cs
      else if 0 < depth then scan depth cs
      else isOperandChar c && scan depth cs

/-- The text without the sign that begins it. -/
def unsignedText : List Char → List Char
  | [] => []
  | c :: cs => if isSign c then cs else c :: cs

def isOperand (cs : List Char) : Bool :=
  let body := unsignedText cs
  !body.isEmpty && scan 0 body

/-- Text taken as it stands: a literal if it is one operand or empty, raw text
otherwise. -/
def ofText (text : String) : Expr :=
  if text = "" ∨ isOperand text.toList then .literal text else .raw text

end Shaderwright.Expr

import Shaderwright.Text.Words

/-!
# Paths

Paths are texts with `/` between names, and are never normalised: joining and
taking the parent work on the text as it was given. An empty name and the name of
the current directory are idle: they name no step of their own.
-/

namespace Shaderwright.Path

def isAbsolute (path : String) : Bool :=
  match path.toList with
  | '/' :: _ => true
  | _ => false

/-- The right side under the left: an absolute right side stands alone, as does
any under the empty path; a slash goes between unless the left ends in one. -/
def join (left right : String) : String :=
  if isAbsolute right ∨ left = "" then right
  else if left.toList.getLast? = some '/' then left ++ right
  else left ++ "/" ++ right

/-- The names between slashes, idle ones included. -/
def names : List Char → List String
  | [] => [""]
  | c :: cs =>
      if c = '/' then "" :: names cs
      else
        match names cs with
        | [] => [c.toString]
        | name :: rest => (c.toString ++ name) :: rest

def isIdle (name : String) : Bool := name = "" || name = "."

/-- Drops the idle names that end a list. -/
def dropIdle : List String → List String
  | [] => []
  | name :: rest =>
      match dropIdle rest with
      | [] => if isIdle name then [] else [name]
      | kept => name :: kept

/-- What a path starts from, and the rest: the root, the current directory, or
nothing. -/
def split (path : String) : String × List Char :=
  match path.toList with
  | '/' :: cs => ("/", cs)
  | ['.'] => (".", [])
  | '.' :: '/' :: cs => (".", '/' :: cs)
  | cs => ("", cs)

/-- The path without its last name. The empty path and the root have none. -/
def parent? (path : String) : Option String :=
  let (start, body) := split path
  match dropIdle (names body) with
  | [] => if start = "." then some "" else none
  | kept => some (start ++ Text.join "/" (dropIdle kept.dropLast))

end Shaderwright.Path

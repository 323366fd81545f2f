import Shaderwright.Files.Path

/-!
# Reading files

A tree maps the paths of its files and directories to their contents. Reading
walks the path name by name, the way an operating system does: a name under a
file is refused, `..` goes up, nothing stands above the root of the tree but
directories, and only a file of valid UTF-8 has a text.
-/

namespace Shaderwright

/-- Why a file could not be read as text. -/
inductive ReadError where
  | missing
  | notDirectory
  | isDirectory
  | nameTooLong
  | nulInPath
  | notText
  | refused (reason : String)
deriving DecidableEq, Repr

def ReadError.message : ReadError → String
  | .missing => "No such file or directory (os error 2)"
  | .notDirectory => "Not a directory (os error 20)"
  | .isDirectory => "Is a directory (os error 21)"
  | .nameTooLong => "File name too long (os error 36)"
  | .nulInPath => "file name contained an unexpected NUL byte"
  | .notText => "stream did not contain valid UTF-8"
  | .refused reason => reason

/-- How files are read: a path is answered with a text or a reason. -/
abbrev Reader := String → Except ReadError String

/-- A file with its bytes, or a directory. -/
inductive Node where
  | file (content : ByteArray)
  | directory

/-- What stands at each place, a place being the list of names that leads there. -/
structure Tree where
  nodes : List (List String × Node) := []

namespace Tree

/-- The names of a path that are steps. -/
def place (path : String) : List String :=
  (Path.names path.toList).filter fun name => !Path.isIdle name

/-- A place is a directory if it is one or if something lies below it. -/
def at? (t : Tree) (place : List String) : Option Node :=
  match t.nodes.lookup place with
  | some node => some node
  | none =>
      if place = [] || t.nodes.any (fun (p, _) => place.isPrefixOf p) then some .directory
      else none

def insert (t : Tree) (path : String) (node : Node) : Tree :=
  ⟨(place path, node) :: t.nodes.filter fun (p, _) => p ≠ place path⟩

/-- Takes a file away; the directory it was in stays. -/
def remove (t : Tree) (path : String) : Tree :=
  match t.at? (place path) with
  | some (.file _) =>
      ⟨((place path).dropLast, .directory) :: t.nodes.filter fun (p, _) => p ≠ place path⟩
  | _ => t

/-- Where a walk stands: at a place of the tree, or somewhere above its root. -/
inductive Position where
  | inside (place : List String)
  | above

/-- One step of a walk. -/
def step (t : Tree) (here : Position) (name : String) : Except ReadError Position :=
  match here with
  | .above =>
      if name = ".." || Path.isIdle name then .ok .above
      else if 255 < name.utf8ByteSize then .error .nameTooLong
      else .error .missing
  | .inside place =>
      match t.at? place with
      | none => .error .missing
      | some (.file _) => .error .notDirectory
      | some .directory =>
          if Path.isIdle name then .ok here
          else if name = ".." then
            .ok (if place = [] then .above else .inside place.dropLast)
          else if 255 < name.utf8ByteSize then .error .nameTooLong
          else .ok (.inside (place ++ [name]))

/-- The text of a file. -/
def textOf (content : ByteArray) : Except ReadError String :=
  match String.fromUTF8? content with
  | some s => .ok s
  | none => .error .notText

/-- Reads the file that a path leads to, from the root of the tree. -/
def read (t : Tree) : Reader := fun path =>
  if path.toList.contains '\x00' then .error .nulInPath
  else if path = "" then .error .missing
  else if 4096 ≤ path.utf8ByteSize then .error .nameTooLong
  else
    let start : Except ReadError Position :=
      .ok (if Path.isAbsolute path then .above else .inside [])
    let arrived := (Path.names path.toList).foldl
      (fun here name => here.bind fun p => t.step p name) start
    match arrived with
    | .error e => .error e
    | .ok .above => .error .isDirectory
    | .ok (.inside place) =>
        match t.at? place with
        | none => .error .missing
        | some .directory => .error .isDirectory
        | some (.file content) => textOf content

end Tree

end Shaderwright

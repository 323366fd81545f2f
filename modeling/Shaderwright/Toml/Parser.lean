import Shaderwright.Toml.Document
import Shaderwright.Toml.Scalar

/-!
# Reading TOML

Keys, values and sections, down to the table of a whole text. Arrays and inline
tables nest, and keys are dotted, less than eighty deep. The readers that call
themselves count down a number of steps that the length of the text bounds.
-/

namespace Shaderwright.Toml

/-- Bound on nested values and on the names of a dotted key. -/
def depthLimit : Nat := 80

/-! ## Keys -/

def isBareChar (c : Char) : Bool := c.isAlphanum || c = '_' || c = '-'

def simpleKey? : Read String := fun cs =>
  match cs.takeWhile isBareChar with
  | [] => shortString? cs
  | name => some (String.ofList name, cs.drop name.length)

/-- One or more names with points between them, spaces around each. -/
def names? : Nat → Read (List String)
  | 0, _ => none
  | steps + 1, cs =>
      match simpleKey? (skipSpaces cs) with
      | none => none
      | some (name, cs) =>
          match skipSpaces cs with
          | '.' :: cs => (names? steps cs).map fun (names, rest) => (name :: names, rest)
          | cs => some ([name], cs)

/-- A dotted key: the path and the last name. -/
def key? (steps : Nat) : Read (List String × String) := fun cs =>
  match names? steps cs with
  | none => none
  | some (names, rest) =>
      if depthLimit ≤ names.length then none
      else names.getLast?.map fun last => ((names.dropLast, last), rest)

/-! ## Values -/

mutual

/-- A value inside `depth` others. -/
def value? : Nat → Nat → Read Value
  | 0, _, _ => none
  | steps + 1, depth, cs =>
      match cs with
      | [] => none
      | '"' :: _ | '\x27' :: _ => (string? cs).map fun (s, rest) => (.string s, rest)
      | 't' :: 'r' :: 'u' :: 'e' :: rest => some (.boolean true, rest)
      | 'f' :: 'a' :: 'l' :: 's' :: 'e' :: rest => some (.boolean false, rest)
      | '[' :: rest =>
          if depthLimit ≤ depth + 1 then none
          else (items? steps (depth + 1) rest).map fun (items, rest) => (.array items, rest)
      | '\x7b' :: rest =>
          if depthLimit ≤ depth + 1 then none
          else
            match skipSpaces rest with
            | '\x7d' :: rest => some (.table [], rest)
            | rest =>
                match pairs? steps (depth + 1) rest with
                | none => none
                | some (pairs, rest) => (ofPairs pairs).map fun entries => (.table entries, rest)
      | _ => scalar? cs

/-- The items of an array up to its closing bracket, with a comma after the last
one or without. -/
def items? : Nat → Nat → Read (List Value)
  | 0, _, _ => none
  | steps + 1, depth, cs =>
      match skipLayout false cs with
      | ']' :: rest => some ([], rest)
      | cs =>
          match value? steps depth cs with
          | none => none
          | some (item, cs) =>
              match skipLayout false cs with
              | ',' :: cs =>
                  (items? steps depth cs).map fun (items, rest) => (item :: items, rest)
              | ']' :: rest => some ([item], rest)
              | _ => none

/-- A key, the equals sign and a value. -/
def pair? : Nat → Nat → Read Pair
  | 0, _, _ => none
  | steps + 1, depth, cs =>
      match key? (steps + 1) cs with
      | some ((path, key), '=' :: cs) =>
          (value? steps depth (skipSpaces cs)).map fun (value, rest) =>
            ({ path, key, value }, rest)
      | _ => none

/-- The pairs of an inline table up to its closing brace, on one line. -/
def pairs? : Nat → Nat → Read (List Pair)
  | 0, _, _ => none
  | steps + 1, depth, cs =>
      match pair? steps depth cs with
      | none => none
      | some (p, cs) =>
          match skipSpaces cs with
          | ',' :: cs => (pairs? steps depth cs).map fun (ps, rest) => (p :: ps, rest)
          | '\x7d' :: rest => some ([p], rest)
          | _ => none

end

/-! ## Documents -/

/-- A table header, from behind its opening bracket. -/
def header? (steps : Nat) : Read Header
  | '[' :: cs =>
      match key? steps cs with
      | some ((path, key), ']' :: ']' :: rest) => some (.element path key, rest)
      | _ => none
  | cs =>
      match key? steps cs with
      | some ((path, key), ']' :: rest) => some (.table path key, rest)
      | _ => none

/-- A line that says something. -/
inductive Entry where
  | header (h : Header)
  | pair (p : Pair)

def entry? (steps : Nat) : Read Entry
  | '[' :: cs => (header? steps cs).map fun (h, rest) => (.header h, rest)
  | cs => (pair? steps 0 cs).map fun (p, rest) => (.pair p, rest)

/-- The entries of a text, one a line. -/
def entries? : Nat → List Char → Option (List Entry)
  | 0, _ => none
  | steps + 1, cs =>
      match skipSpaces cs with
      | [] => some []
      | cs =>
          match lineEnd? cs with
          | some rest => entries? steps rest
          | none =>
              match entry? (steps + 1) cs with
              | none => none
              | some (e, cs) =>
                  match lineEnd? cs with
                  | none => none
                  | some rest => (entries? steps rest).map fun es => e :: es

/-- Gathers the pairs behind each header. -/
def sections (current : Section) : List Entry → List Section
  | [] => [current]
  | .header h :: rest => current :: sections ⟨h, []⟩ rest
  | .pair p :: rest => sections { current with pairs := current.pairs ++ [p] } rest

/-- A byte order mark at the start says nothing. -/
def skipMark : List Char → List Char
  | '\ufeff' :: cs => cs
  | cs => cs

/-- The table that a text describes. -/
def parse? (text : String) : Option (List (String × Value)) :=
  let cs := skipMark text.toList
  match entries? (2 * cs.length + 2) cs with
  | none => none
  | some es => ofSections (sections ⟨.root, []⟩ es)

end Shaderwright.Toml

import Shaderwright.Toml.Value

/-!
# Building tables

A document is a row of sections, each with a header and its pairs of key and
value. While tables are being built, each carries two marks: it is implicit if no
header has defined it yet, and dotted if a dotted key made it. Headers extend
implicit tables that are not dotted, dotted keys extend dotted ones, and nothing
extends a value.
-/

namespace Shaderwright.Toml

structure Marks where
  implicit : Bool
  dotted : Bool
deriving DecidableEq, Repr

/-- What stands under a key while a document is built. -/
inductive Item where
  | value (v : Value)
  | table (marks : Marks) (entries : List (String × Item))
  /-- The tables of an array of tables, the last one open. -/
  | tables (elements : List (List (String × Item)))

abbrev Entries := List (String × Item)

/-- Marks of the tables that headers define. -/
def Marks.defined : Marks := ⟨false, false⟩

def Entries.replace (es : Entries) (key : String) (item : Item) : Entries :=
  es.map fun (k, i) => if k = key then (k, item) else (k, i)

def Entries.erase (es : Entries) (key : String) : Entries :=
  es.filter fun (k, _) => k ≠ key

/-- Changes the table that a path leads to, making the tables on the way that are
not there. -/
def alter (dotted : Bool) (change : Marks → Entries → Option Entries) (marks : Marks)
    (es : Entries) : List String → Option Entries
  | [] => change marks es
  | key :: path =>
      match es.lookup key with
      | none =>
          let marks : Marks := ⟨true, dotted⟩
          (alter dotted change marks [] path).map fun inner => es ++ [(key, .table marks inner)]
      | some (.value _) => none
      | some (.table marks inner) =>
          if dotted && !marks.implicit then none
          else
            (alter dotted change marks inner path).map fun inner =>
              es.replace key (.table marks inner)
      | some (.tables elements) =>
          match elements.getLast? with
          | none => none
          | some last =>
              (alter dotted change .defined last path).map fun inner =>
                es.replace key (.tables (elements.dropLast ++ [inner]))

/-- A key with the path of dotted names before it, and its value. -/
structure Pair where
  path : List String
  key : String
  value : Value

/-- Adds a pair to a table. A key is given once only. -/
def insertPair (es : Entries) (p : Pair) : Option Entries :=
  alter true
    (fun marks es =>
      if marks.dotted = p.path.isEmpty then none
      else if (es.lookup p.key).isSome then none
      else some (es ++ [(p.key, .value p.value)]))
    .defined es p.path

def insertPairs (es : Entries) (pairs : List Pair) : Option Entries :=
  pairs.foldlM insertPair es

inductive Header where
  | root
  | table (path : List String) (key : String)
  /-- One more element of an array of tables. -/
  | element (path : List String) (key : String)

structure Section where
  header : Header
  pairs : List Pair

/-- Adds a section to the root table. A header that defines a table which stands
there implicitly moves it behind the others. -/
def addSection (root : Entries) (s : Section) : Option Entries :=
  match s.header with
  | .root => insertPairs root s.pairs
  | .table path key =>
      alter false
        (fun _ es =>
          match es.lookup key with
          | none =>
              (insertPairs [] s.pairs).map fun inner => es ++ [(key, .table .defined inner)]
          | some (.table ⟨true, false⟩ inner) =>
              (insertPairs inner s.pairs).map fun inner =>
                es.erase key ++ [(key, .table .defined inner)]
          | some _ => none)
        .defined root path
  | .element path key =>
      alter false
        (fun _ es =>
          match es.lookup key with
          | none =>
              (insertPairs [] s.pairs).map fun inner => es ++ [(key, .tables [inner])]
          | some (.tables elements) =>
              (insertPairs [] s.pairs).map fun inner =>
                es.replace key (.tables (elements ++ [inner]))
          | some _ => none)
        .defined root path

mutual

/-- The finished value of an item. -/
def Item.finish : Item → Value
  | .value v => v
  | .table _ es => .table (finishEntries es)
  | .tables elements => .array (finishElements elements)

def finishEntries : List (String × Item) → List (String × Value)
  | [] => []
  | (key, item) :: rest => (key, item.finish) :: finishEntries rest

def finishElements : List (List (String × Item)) → List Value
  | [] => []
  | es :: rest => .table (finishEntries es) :: finishElements rest

end

/-- The entries of the table that sections describe. -/
def ofSections (sections : List Section) : Option (List (String × Value)) :=
  (sections.foldlM addSection []).map finishEntries

/-- The entries of an inline table. -/
def ofPairs (pairs : List Pair) : Option (List (String × Value)) :=
  (insertPairs [] pairs).map finishEntries

end Shaderwright.Toml

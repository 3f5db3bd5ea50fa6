/-
# The tables of a document while its lines are read

A table comes into being in one of three ways, and this decides what may still be done with it:

| named first by | a header `[a]` | a dotted key `a.b` | a header `[a.b]` |
| --- | --- | --- | --- |
| a header of its own | refused | refused | allowed |
| the header of a table inside it | allowed, once | refused | allowed |
| a dotted key | refused | allowed | allowed |

A key is set once. Headers `[[a]]` make a list of tables, and keys that go through it go to its
last table. Values are closed: nothing is added to an array or to a table in braces.
-/

import DiffusionMesh.Toml.Value

namespace DiffusionMesh
namespace Toml

/-- What named a table first. -/
inductive Naming where
  | header
  | innerHeader
  | dottedKey
deriving DecidableEq, Repr

/-- A part of a document that is being read. -/
inductive Node where
  | value (v : Value)
  | table (naming : Naming) (entries : List (String × Node))
  | tables (items : List Node)
deriving Repr, Inhabited

/-- The keys of a table that is being read. -/
abbrev Nodes := List (String × Node)

namespace Nodes

/-- Puts a node at a key, in the place of an older one or at the end. -/
def put (key : String) (node : Node) : Nodes → Nodes
  | [] => [(key, node)]
  | (k, old) :: rest => if k = key then (k, node) :: rest else (k, old) :: put key node rest

/-- The table at the end of a path; an empty one if there is none yet. A path leads through the
last table of a list and through no value. -/
def tableAt? : List String → Nodes → Option Nodes
  | [], entries => some entries
  | key :: path, entries =>
    match entries.lookup key with
    | none => some []
    | some (.value _) => none
    | some (.table _ inner) => tableAt? path inner
    | some (.tables items) =>
      match items.getLast? with
      | some (.table _ inner) => tableAt? path inner
      | _ => none

/-- Changes the table at the end of a path. Tables that are missing on the way are made. A dotted
key goes through no table that a header of its own named. -/
def changeAt (made : Naming) (change : Naming → Nodes → Option Nodes) (naming : Naming) :
    List String → Nodes → Option Nodes
  | [], entries => change naming entries
  | key :: path, entries =>
    match entries.lookup key with
    | none => do
      let inner ← changeAt made change made path []
      return entries.put key (.table made inner)
    | some (.value _) => none
    | some (.table naming inner) => do
      guard !(made = .dottedKey && naming = .header)
      let inner ← changeAt made change naming path inner
      return entries.put key (.table naming inner)
    | some (.tables items) =>
      match items.getLast? with
      | some (.table naming inner) => do
        let inner ← changeAt made change naming path inner
        return entries.put key (.tables (items.dropLast ++ [.table naming inner]))
      | _ => none

/-- Sets the key at the end of a path. The key is new, and a table that the path leads to is one
that a dotted key named first. -/
def assign (entries : Nodes) (path : List String) (key : String) (v : Value) : Option Nodes :=
  entries.changeAt .dottedKey (fun naming inner => do
    guard (path.isEmpty || naming = .dottedKey)
    guard (inner.lookup key).isNone
    return inner.put key (.value v)) .header path

/-- Puts a table behind its header at the end of a path. It comes behind all tables that are
complete, also if a header inside it has named it before. -/
def putTable (entries : Nodes) (path : List String) (key : String) (table : Nodes) :
    Option Nodes :=
  entries.changeAt .innerHeader (fun _ inner =>
    some (inner.filter (·.1 != key) ++ [(key, .table .header table)])) .header path

/-- Adds a table behind its header to the list of tables at the end of a path. -/
def addToList (entries : Nodes) (path : List String) (key : String) (table : Nodes) :
    Option Nodes :=
  entries.changeAt .innerHeader (fun _ inner =>
    match inner.lookup key with
    | none => some (inner.put key (.tables [.table .header table]))
    | some (.tables items) => some (inner.put key (.tables (items ++ [.table .header table])))
    | some _ => none) .header path

end Nodes

mutual

/-- The value that a part of a document ends as. -/
def Node.finished : Node → Value
  | .value v => v
  | .table _ entries => .table (finishedEntries entries)
  | .tables items => .array (finishedItems items)

/-- The tables of a list as values. -/
def finishedItems : List Node → List Value
  | [] => []
  | item :: rest => item.finished :: finishedItems rest

/-- The keys of a table with their values. -/
def finishedEntries : List (String × Node) → Entries
  | [] => []
  | entry :: rest => finishedEntry entry :: finishedEntries rest

/-- A key with its value. -/
def finishedEntry : String × Node → String × Value
  | (key, node) => (key, node.finished)

end

/-- Where the lines that are being read belong. -/
inductive Place where
  /-- Before the first header. -/
  | top
  /-- Behind `[path.key]`. -/
  | table (path : List String) (key : String)
  /-- Behind `[[path.key]]`. -/
  | item (path : List String) (key : String)
deriving DecidableEq, Repr

/-- A document while its lines are read: the tables that are complete, and the one that the
lines belong to. -/
structure Outline where
  complete : Nodes := []
  place : Place := .top
  current : Nodes := []
deriving Repr, Inhabited

namespace Outline

variable (o : Outline)

/-- All tables, the last one complete. -/
def close : Option Nodes :=
  match o.place with
  | .top => some o.current
  | .table path key => o.complete.putTable path key o.current
  | .item path key => o.complete.addToList path key o.current

/-- Goes on behind a header `[path.key]`. A table that is there has been named by headers inside
it only, and keeps what these put into it. -/
def openTable (path : List String) (key : String) : Option Outline := do
  let complete ← o.close
  match (← complete.tableAt? path).lookup key with
  | none => return ⟨complete, .table path key, []⟩
  | some (.table .innerHeader inner) => return ⟨complete, .table path key, inner⟩
  | some _ => none

/-- Goes on behind a header `[[path.key]]`. What is there is a list of tables. -/
def openItem (path : List String) (key : String) : Option Outline := do
  let complete ← o.close
  match (← complete.tableAt? path).lookup key with
  | none => return ⟨complete, .item path key, []⟩
  | some (.tables _) => return ⟨complete, .item path key, []⟩
  | some _ => none

/-- Sets the key at the end of a path in the table that the lines belong to. -/
def assign (path : List String) (key : String) (v : Value) : Option Outline := do
  return { o with current := ← o.current.assign path key v }

/-- The keys of the document with their values. -/
def finish : Option Entries := do
  return finishedEntries (← o.close)

end Outline
end Toml
end DiffusionMesh

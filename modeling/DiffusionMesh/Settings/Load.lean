/-
# Loading settings

The tree of all sources is read into a configuration. A setting that no source gives keeps its
default, and keys that are no settings are ignored. A whole number may be given as

| given as | becomes |
| --- | --- |
| a whole number | itself |
| a text of decimal digits | their number |
| the texts `true`, `on`, `yes`, `false`, `off`, `no` in any case, or a boolean | 1 or 0 |
| a number with a fraction | the nearest whole number, a half away from zero |

A number with a fraction beyond 64 bits becomes the nearest number of 64 bits, and no number
becomes 0. Settings of 32 bits are read with 64 bits first.

The sources are laid in any order of their entries. A failure names one setting of the wrong kind;
if there are several, it might as well have named another of them.
-/

import DiffusionMesh.Settings.Config
import DiffusionMesh.Settings.Layer
import DiffusionMesh.Toml.Document

namespace DiffusionMesh
namespace Settings

/-- The least whole number of 64 bits, with or without sign. -/
def least (signed : Bool) : Int := if signed then Int64.minValue.toInt else 0

/-- The greatest whole number of 64 bits, with or without sign. -/
def greatest (signed : Bool) : Int :=
  if signed then Int64.maxValue.toInt else UInt64.size - 1

/-- The number that a text spells: a word for yes or no, or decimal digits. -/
def numberOfText? (signed : Bool) (text : String) : Option Int :=
  let word := Text.lowerCase text
  if word = "true" || word = "on" || word = "yes" then some 1
  else if word = "false" || word = "off" || word = "no" then some 0
  else
    let n? := if signed then Text.signed? text else (Text.unsigned? text).map Int.ofNat
    n?.filter fun n => least signed ≤ n && n ≤ greatest signed

/-- The whole number of 64 bits nearest to a number with a fraction. -/
def numberOfFloat (signed : Bool) (x : Text.Binary64) : Int :=
  match x.roundAway? with
  | some n => max (least signed) (min (greatest signed) n)
  | none =>
    match x with
    | .nan => 0
    | x => if x.isNegative then least signed else greatest signed

/-- A setting as a whole number of 64 bits. -/
def number64 (signed : Bool) (key : String) (t : Tree) : Except WrongKind Int :=
  let refuse (found : Found) (origin : Option String) : Except WrongKind Int :=
    .error ⟨found, .integer, some key, origin⟩
  match t with
  | .given (.integer n) origin =>
    if !signed && n < 0 then .error ⟨.signed n, .unsigned64, some key, origin⟩ else .ok n
  | .given (.text s) origin => (numberOfText? signed s).elim (refuse (.text s) origin) .ok
  | .given (.boolean b) _ => .ok (if b then 1 else 0)
  | .given (.float x) _ => .ok (numberOfFloat signed x)
  | .given (.array _) origin => refuse .sequence origin
  | .given (.table _) origin => refuse .table origin
  | .nothing => refuse .nothing none
  | .sequence _ origin => refuse .sequence origin
  | .table _ origin => refuse .table origin

/-- A setting of 64 bits without sign. -/
def unsigned64 (key : String) (t : Tree) : Except WrongKind UInt64 :=
  return UInt64.ofNat (← number64 false key t).toNat

/-- A setting of 32 bits without sign. -/
def unsigned32 (key : String) (t : Tree) : Except WrongKind UInt32 := do
  let n ← number64 false key t
  if n < UInt32.size then return UInt32.ofNat n.toNat
  else throw ⟨.unsigned n.toNat, .unsigned32, some key, none⟩

/-- A setting of 32 bits with sign. -/
def signed32 (key : String) (t : Tree) : Except WrongKind Int32 := do
  let n ← number64 true key t
  if Int32.minValue.toInt ≤ n && n ≤ Int32.maxValue.toInt then return Int32.ofInt n
  else throw ⟨.signed n, .signed32, some key, none⟩

/-- A setting if a source gives it, and its default otherwise. -/
def orDefault {α : Type} (t? : Option Tree) (read : Tree → Except WrongKind α) (default : α) :
    Except WrongKind α :=
  t?.elim (.ok default) read

/-- What stands in the place of a group of settings and is none. -/
def foundInsteadOfGroup : Tree → Found
  | .given (.text s) _ => .text s
  | .given (.integer n) _ => .integer n
  | .given (.float x) _ => .float x
  | .given (.boolean b) _ => .boolean b
  | .given (.array _) _ => .sequence
  | .given (.table _) _ => .table
  | .nothing => .nothing
  | .sequence _ _ => .sequence
  | .table _ _ => .table

/-- The position of a side in a sequence of all sides. -/
def positionOf (d : Direction) : Nat := Direction.all.idxOf d

/-- The temperatures beyond the sides: a table by side, or a sequence in the order of the
sides. -/
def boundary (default : Compass Int32) (t : Tree) : Except WrongKind (Compass Int32) := do
  let side (d : Direction) : Except WrongKind Int32 :=
    match t.entries? with
    | some (entries, _) =>
      orDefault (entries.lookup d.key) (signed32 s!"boundary.{d.key}") (default.get d)
    | none =>
      orDefault (t.item? (positionOf d)) (signed32 s!"boundary[{positionOf d}]") (default.get d)
  if t.entries?.isNone && t.items?.isNone then
    throw ⟨foundInsteadOfGroup t, .boundary, none, none⟩
  return ⟨← side .north, ← side .south, ← side .east, ← side .west⟩

/-- The configuration that a tree of settings describes. -/
def configOf (t : Tree) : Except WrongKind Config := do
  let d : Config := {}
  return {
    cells := ← orDefault (t.child? "cells") (unsigned32 "cells") d.cells
    messageWords :=
      ← orDefault (t.child? "message_words") (unsigned64 "message_words") d.messageWords
    iterations := ← orDefault (t.child? "iterations") (unsigned32 "iterations") d.iterations
    linkCapacity :=
      ← orDefault (t.child? "link_capacity") (unsigned64 "link_capacity") d.linkCapacity
    boundary := ← orDefault (t.child? "boundary") (boundary d.boundary) d.boundary }

/-- Loads a configuration from the layers of all sources, in an order of their entries. -/
def load (order : LayingOrder) (layers : List Layer) : Except LoadFault Config := do
  (configOf (← ofLayers (order.arranged layers))).mapError .wrongKind

/-- The layer of a document. -/
def documentLayer (origin : Option String) (text : String) : Except LoadFault Layer :=
  match Toml.read text with
  | none => .error .malformed
  | some (.moment text) => .error (.noTable text origin)
  | some (.table entries) => .ok ⟨origin, entries⟩

/-- The parts of a path, without those that stay where they are. -/
def pathParts (path : String) : List String :=
  (path.splitOn "/").filter fun part => part != "" && part != "."

/-- A path without the parts that stay where they are. -/
def plainPath (path : String) : String :=
  (if path.startsWith "/" then "/" else "") ++ "/".intercalate (pathParts path)

/-- The files that a path may mean: the file of that name, else the one with the ending of TOML
documents. A path that ends with a step upward has no name to take the ending. -/
def candidates (path : String) : List String :=
  match (pathParts path).getLast? with
  | none => [path]
  | some last => if last = ".." then [path] else [path, plainPath path ++ ".toml"]

end Settings

namespace Config

open Settings

/-- Loads a configuration from the text of a document and the environment. -/
def ofText (text : String) (environment : List (String × String))
    (order : LayingOrder := .asWritten) : Except LoadFault Config := do
  load order [← documentLayer none text, .ofEnvironment environment]

/-- Loads a configuration from a file, if a path is given, and the environment. `files` gives the
text of the file at a path. -/
def ofFile (files : String → Option String) (path? : Option String)
    (environment : List (String × String)) (order : LayingOrder := .asWritten) :
    Except LoadFault Config := do
  match path? with
  | none => load order [.ofEnvironment environment]
  | some path =>
    let found? := (candidates path).findSome? fun p => (files p).map fun text => (p, text)
    match found? with
    | none => throw (.missing path)
    | some (found, text) =>
      load order [← documentLayer (some (plainPath found)) text, .ofEnvironment environment]

end Config
end DiffusionMesh

/-
# Tables that stand for a date or time

A table whose first key is the mark stands for a date or time: the text at the mark says which,
and all other keys of the table count for nothing.

| table | is |
| --- | --- |
| without keys, or with another first key | a table |
| first key the mark, with the text of a date or time | this date or time |
| first key the mark, with anything else | refused |
-/

import DiffusionMesh.Toml.Moment

namespace DiffusionMesh
namespace Toml

/-- The key that marks a table as a date or time. -/
def momentMark : String := "$__toml_private_datetime"

/-- Whether a table stands for a date or time. -/
def isMarked (entries : Entries) : Bool := entries.head?.any (·.1 = momentMark)

/-- The date or time that a marked table stands for. -/
def markedMoment? : Entries → Option String
  | (_, .text s) :: _ => momentOfText? s
  | _ => none

mutual

/-- A value with dates and times in the place of marked tables. -/
def Value.settled : Value → Option Value
  | .array items => (settledItems items).map .array
  | .table entries =>
    if isMarked entries then (markedMoment? entries).map .text
    else (settledEntries entries).map .table
  | v => some v

/-- Items with dates and times in the place of marked tables. -/
def settledItems : List Value → Option (List Value)
  | [] => some []
  | v :: rest => do return (← v.settled) :: (← settledItems rest)

/-- Entries with dates and times in the place of marked tables. -/
def settledEntries : List (String × Value) → Option (List (String × Value))
  | [] => some []
  | entry :: rest => do return (← settledEntry entry) :: (← settledEntries rest)

/-- An entry with dates and times in the place of marked tables. -/
def settledEntry : String × Value → Option (String × Value)
  | (key, v) => v.settled.map fun v => (key, v)

end

/-- What a document holds: a table, or a single date or time. -/
inductive Content where
  | table (entries : Entries)
  | moment (text : String)
deriving Repr, Inhabited

/-- What the entries of a document stand for. -/
def Content.ofEntries (entries : Entries) : Option Content :=
  if isMarked entries then (markedMoment? entries).map .moment
  else (settledEntries entries).map .table

end Toml
end DiffusionMesh

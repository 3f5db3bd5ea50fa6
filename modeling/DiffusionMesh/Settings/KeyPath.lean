/-
# Paths to settings

A key names a place in a tree of settings: a name, then any number of steps.

| step | text |
| --- | --- |
| an entry of a table | `.name` |
| an item of a sequence, from the front or from the end | `[3]`, `[-1]` |

Names consist of ASCII letters, digits, blanks, `_` and `-`, and count in lower case. A key that
cannot be read so is one name.
-/

import DiffusionMesh.Text.LowerCase
import DiffusionMesh.Text.Numeral

namespace DiffusionMesh
namespace Settings

/-- One step toward a setting. -/
inductive Step where
  | name (key : String)
  | index (i : Int)
deriving DecidableEq, Repr

/-- The way to a setting. -/
abbrev KeyPath := List Step

namespace KeyPath

/-- A character of a name. -/
def isNameChar (c : Char) : Bool := c.isAlphanum || c = ' ' || c = '_' || c = '-'

/-- A name in front, and what follows. -/
def name? (cs : List Char) : Option (Step × List Char) :=
  let text := cs.takeWhile isNameChar
  if text.isEmpty then none
  else some (.name (Text.lowerCase (String.ofList text)), cs.dropWhile isNameChar)

/-- A whole number between the brackets of an index, if it fits 64 bits. -/
def indexOf? (cs : List Char) : Option Step := do
  let isSpace (c : Char) : Bool := c = ' ' || c = '\t'
  let digits := (cs.dropWhile isSpace).reverse.dropWhile isSpace |>.reverse
  guard (digits.head? != some '+')
  let i ← Text.signed? (String.ofList digits)
  guard (Int64.minValue.toInt ≤ i && i ≤ Int64.maxValue.toInt)
  return .index i

/-- The steps behind the first name. Each takes a character, so `limit` is enough for a shorter
text. -/
def steps? : (limit : Nat) → List Char → Option KeyPath
  | _, [] => some []
  | 0, _ => none
  | limit + 1, '.' :: rest => do
    let (step, rest) ← name? rest
    return step :: (← steps? limit rest)
  | limit + 1, '[' :: rest => do
    let step ← indexOf? (rest.takeWhile (· != ']'))
    match rest.dropWhile (· != ']') with
    | ']' :: rest => return step :: (← steps? limit rest)
    | _ => none
  | _, _ => none

/-- The path that a text spells. -/
def ofText? (s : String) : Option KeyPath := do
  let (step, rest) ← name? s.toList
  return step :: (← steps? rest.length rest)

/-- The path of a key. -/
def ofKey (key : String) : KeyPath := (ofText? key).getD [.name (Text.lowerCase key)]

end KeyPath
end Settings
end DiffusionMesh

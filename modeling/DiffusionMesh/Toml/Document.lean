/-
# Documents

A document is a text of lines. A line holds a key with its value, the header of a table, or
nothing, and may end with a comment. A byte order mark may stand in front of all.

A dotted key has at most 79 parts, and at most 79 arrays and tables in braces stand inside one
another.
-/

import DiffusionMesh.Toml.Marking
import DiffusionMesh.Toml.Outline
import DiffusionMesh.Toml.Quotation

namespace DiffusionMesh
namespace Toml

/-- The most parts of a key, and the most brackets inside one another. -/
def deepest : Nat := 79

/-- A character of a key that stands without quotation marks. -/
def isKeyChar (c : Char) : Bool :=
  ('a' ≤ c && c ≤ 'z') || ('A' ≤ c && c ≤ 'Z') || ('0' ≤ c && c ≤ '9') || c = '-' || c = '_'

/-- One part of a key, and what follows. -/
def keyPart (cs : List Char) : Option (String × List Char) :=
  match cs with
  | '"' :: _ => quotedLine cs
  | '\'' :: _ => quotedLine cs
  | cs =>
    let part := cs.takeWhile isKeyChar
    if part.isEmpty then none else some (String.ofList part, cs.dropWhile isKeyChar)

/-- A key of at most `left` parts, split into the path and its last part, and what follows.
Blanks may surround every part. -/
def key : (left : Nat) → List Char → Option ((List String × String) × List Char)
  | 0, _ => none
  | left + 1, cs => do
    let (part, rest) ← keyPart (skipBlanks cs)
    match skipBlanks rest with
    | '.' :: rest =>
      let ((path, last), rest) ← key left rest
      return ((part :: path, last), rest)
    | rest => return (([], part), rest)

/-- The items of an array up to its closing bracket, and what follows. Blanks, line ends and
comments may surround every item. -/
def arrayItems (item : List Char → Option (Value × List Char)) :
    (limit : Nat) → List Char → Option (List Value × List Char)
  | 0, _ => none
  | limit + 1, cs => do
    match ← skipLines false cs with
    | ']' :: rest => return ([], rest)
    | cs =>
      let (v, rest) ← item cs
      match ← skipLines false rest with
      | ',' :: rest =>
        let (vs, rest) ← arrayItems item limit rest
        return (v :: vs, rest)
      | ']' :: rest => return ([v], rest)
      | _ => none

/-- A key with its value, added to a table, and what follows. -/
def keyWithValue (item : List Char → Option (Value × List Char)) (cs : List Char) :
    Option ((List String × String) × Value × List Char) := do
  let (name, rest) ← key deepest cs
  let rest ← exactly '=' rest
  let (v, rest) ← item (skipBlanks rest)
  return (name, v, rest)

/-- The keys of a table in braces, at least one, up to its closing brace, and what follows. -/
def bracedEntries (item : List Char → Option (Value × List Char)) :
    (limit : Nat) → Nodes → List Char → Option (Nodes × List Char)
  | 0, _, _ => none
  | limit + 1, entries, cs => do
    let ((path, last), v, rest) ← keyWithValue item cs
    let entries ← entries.assign path last v
    match skipBlanks rest with
    | ',' :: rest => bracedEntries item limit entries rest
    | '}' :: rest => return (entries, rest)
    | _ => none

/-- A value with at most `depth` brackets inside one another, and what follows. -/
def value : (depth : Nat) → List Char → Option (Value × List Char)
  | depth, cs =>
    match cs with
    | '"' :: _ => (quotation cs).map fun (text, rest) => (.text text, rest)
    | '\'' :: _ => (quotation cs).map fun (text, rest) => (.text text, rest)
    | 't' :: 'r' :: 'u' :: 'e' :: rest => some (.boolean true, rest)
    | 'f' :: 'a' :: 'l' :: 's' :: 'e' :: rest => some (.boolean false, rest)
    | '[' :: rest =>
      match depth with
      | 0 => none
      | depth + 1 =>
        (arrayItems (value depth) (rest.length + 1) rest).map fun (vs, r) => (.array vs, r)
    | '{' :: rest =>
      match depth with
      | 0 => none
      | depth + 1 =>
        match skipBlanks rest with
        | '}' :: rest => some (.table [], rest)
        | _ => (bracedEntries (value depth) (rest.length + 1) [] rest).map fun (entries, r) =>
          (.table (finishedEntries entries), r)
    | cs => (moment cs).or (number cs)

/-- A header behind its opening bracket: its key, and what follows the closing bracket. -/
def header (cs : List Char) : Option ((List String × String) × List Char) := do
  let (name, rest) ← key deepest cs
  return (name, ← exactly ']' rest)

/-- Reads the line in front, and gives what follows. -/
def line (o : Outline) (cs : List Char) : Option (Outline × List Char) := do
  let (o, rest) ← match skipBlanks cs with
    | '[' :: '[' :: rest => do
      let ((path, last), rest) ← header rest
      pure (← o.openItem path last, ← exactly ']' rest)
    | '[' :: rest => do
      let ((path, last), rest) ← header rest
      pure (← o.openTable path last, rest)
    | rest =>
      if rest.isEmpty || rest.head? = some '#' || (afterLineEnd? rest).isSome then some (o, rest)
      else do
        let ((path, last), v, rest) ← keyWithValue (value deepest) rest
        pure (← o.assign path last v, rest)
  return (o, ← finishLine rest)

/-- Reads all lines. Every one but the last takes a character, so `limit` lines are enough for a
shorter text. -/
def lines : (limit : Nat) → Outline → List Char → Option Outline
  | 0, _, _ => none
  | limit + 1, o, cs => do
    let (o, rest) ← line o cs
    if rest.isEmpty then return o else lines limit o rest

/-- What a text holds; nothing if it is not a document. -/
def read (text : String) : Option Content := do
  let body := match text.toList with
    | '\uFEFF' :: rest => rest
    | cs => cs
  Content.ofEntries (← (← lines (body.length + 1) {} body).finish)

end Toml
end DiffusionMesh

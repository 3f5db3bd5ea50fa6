/-
# Text between quotation marks

| quotation | lines | escapes |
| --- | --- | --- |
| `"…"` | one | yes |
| `'…'` | one | no |
| `"""…"""` | any number | yes, and a backslash at the end of a line |
| `'''…'''` | any number | no |

Control characters other than tab are refused. In a quotation of many lines a line end right
behind the opening marks is dropped, every other line end is a line feed, and one or two marks
may stand inside, also right before the closing ones.
-/

import DiffusionMesh.Toml.Numeral
import DiffusionMesh.Toml.Spacing

namespace DiffusionMesh
namespace Toml

/-- The character with this number. Surrogates are no characters. -/
def scalar? (digits : List Char) : Option Char :=
  let n := ofDigits 16 digits
  if digits.all (isDigitOf 16) && n.isValidChar then some (Char.ofNat n) else none

/-- The character for the letter behind a backslash. -/
def escaped? : Char → Option Char
  | 'b' => some '\x08'
  | 't' => some '\t'
  | 'n' => some '\n'
  | 'f' => some '\x0c'
  | 'r' => some '\r'
  | '"' => some '"'
  | '\\' => some '\\'
  | _ => none

/-- Puts a character before the text that was read. -/
def before (c : Char) (read : Option (List Char × List Char)) : Option (List Char × List Char) :=
  read.map fun (text, rest) => (c :: text, rest)

/-- The text up to a closing `"`, and what follows. -/
def basicLine : List Char → Option (List Char × List Char)
  | '"' :: rest => some ([], rest)
  | '\\' :: 'u' :: a :: b :: c :: d :: rest =>
    (scalar? [a, b, c, d]).bind (before · (basicLine rest))
  | '\\' :: 'U' :: a :: b :: c :: d :: e :: f :: g :: h :: rest =>
    (scalar? [a, b, c, d, e, f, g, h]).bind (before · (basicLine rest))
  | '\\' :: c :: rest => (escaped? c).bind (before · (basicLine rest))
  | c :: rest => if isPlain c && c != '\\' then before c (basicLine rest) else none
  | [] => none

/-- The text up to a closing `'`, and what follows. -/
def literalLine : List Char → Option (List Char × List Char)
  | '\'' :: rest => some ([], rest)
  | c :: rest => if isPlain c then before c (literalLine rest) else none
  | [] => none

/-- If three marks or more stand in front, they close the quotation: the marks that belong to
the text, two at most, and what follows. -/
def closing? (mark : Char) (cs : List Char) : Option (List Char × List Char) :=
  let count := (cs.takeWhile (· = mark)).length
  if 3 ≤ count then some (List.replicate (min count 5 - 3) mark, cs.drop (min count 5)) else none

/-- Whether only blanks stand before the end of the line. -/
def isLineRest (cs : List Char) : Bool := (afterLineEnd? (skipBlanks cs)).isSome

/-- The text up to the closing `"""`, and what follows. After a backslash at the end of a line
blanks and line ends are skipped. -/
def basicBlock (skipping : Bool) (cs : List Char) : Option (List Char × List Char) :=
  match closing? '"' cs with
  | some closed => some closed
  | none =>
    match cs with
    | '\n' :: rest =>
      if skipping then basicBlock true rest else before '\n' (basicBlock false rest)
    | '\r' :: '\n' :: rest =>
      if skipping then basicBlock true rest else before '\n' (basicBlock false rest)
    | '\\' :: 'u' :: a :: b :: c :: d :: rest =>
      (scalar? [a, b, c, d]).bind (before · (basicBlock false rest))
    | '\\' :: 'U' :: a :: b :: c :: d :: e :: f :: g :: h :: rest =>
      (scalar? [a, b, c, d, e, f, g, h]).bind (before · (basicBlock false rest))
    | '\\' :: c :: rest =>
      if isLineRest (c :: rest) then basicBlock true (c :: rest)
      else (escaped? c).bind (before · (basicBlock false rest))
    | c :: rest =>
      if skipping && isBlank c then basicBlock true rest
      else if isPlain c && c != '\\' then before c (basicBlock false rest)
      else none
    | [] => none

/-- The text up to the closing `'''`, and what follows. -/
def literalBlock (cs : List Char) : Option (List Char × List Char) :=
  match closing? '\'' cs with
  | some closed => some closed
  | none =>
    match cs with
    | '\n' :: rest => before '\n' (literalBlock rest)
    | '\r' :: '\n' :: rest => before '\n' (literalBlock rest)
    | c :: rest => if isPlain c then before c (literalBlock rest) else none
    | [] => none

/-- A quotation of one line in front, and what follows. -/
def quotedLine : List Char → Option (String × List Char)
  | '"' :: rest => (basicLine rest).map fun (text, r) => (String.ofList text, r)
  | '\'' :: rest => (literalLine rest).map fun (text, r) => (String.ofList text, r)
  | _ => none

/-- A quotation of any kind in front, and what follows. -/
def quotation : List Char → Option (String × List Char)
  | '"' :: '"' :: '"' :: rest =>
    let body := (afterLineEnd? rest).getD rest
    (basicBlock false body).map fun (text, r) => (String.ofList text, r)
  | '\'' :: '\'' :: '\'' :: rest =>
    let body := (afterLineEnd? rest).getD rest
    (literalBlock body).map fun (text, r) => (String.ofList text, r)
  | cs => quotedLine cs

end Toml
end DiffusionMesh

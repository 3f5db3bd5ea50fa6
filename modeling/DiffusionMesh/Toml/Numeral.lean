/-
# Numbers

| form | example |
| --- | --- |
| decimal whole number, without leading zeros | `+1_000` |
| hexadecimal, octal, binary whole number, without sign | `0xff`, `0o17`, `0b101` |
| number with a fraction, an exponent or both | `-1.5e3` |
| infinity, no number | `inf`, `-nan` |

Single underscores may stand between digits. A whole number has to fit 64 bits with sign. A
number with a fraction is rounded to the nearest one of the 64-bit binary format; one that is
above all of them is refused, one that is below all of them becomes the negative infinity.
-/

import DiffusionMesh.Toml.Value

namespace DiffusionMesh
namespace Toml

/-- The value of a digit of any base up to sixteen. -/
def digitValue (c : Char) : Nat :=
  if c.isDigit then c.toNat - '0'.toNat
  else if 'a' ≤ c then c.toNat - 'a'.toNat + 10
  else c.toNat - 'A'.toNat + 10

/-- A digit of the given base. -/
def isDigitOf (base : Nat) (c : Char) : Bool :=
  (c.isDigit || ('a' ≤ c && c ≤ 'f') || ('A' ≤ c && c ≤ 'F')) && digitValue c < base

/-- The number that digits stand for. -/
def ofDigits (base : Nat) (digits : List Char) : Nat :=
  digits.foldl (fun n c => n * base + digitValue c) 0

/-- The digits that go on after a first one, and what follows. -/
def moreDigits (base : Nat) : List Char → Option (List Char × List Char)
  | '_' :: c :: rest =>
    if isDigitOf base c then (moreDigits base rest).map fun (ds, r) => (c :: ds, r) else none
  | ['_'] => none
  | c :: rest =>
    if isDigitOf base c then (moreDigits base rest).map fun (ds, r) => (c :: ds, r)
    else some ([], c :: rest)
  | [] => some ([], [])

/-- One digit or more, and what follows. -/
def digitRun (base : Nat) : List Char → Option (List Char × List Char)
  | c :: rest =>
    if isDigitOf base c then (moreDigits base rest).map fun (ds, r) => (c :: ds, r) else none
  | [] => none

/-- The digits of a decimal whole number: a zero stands alone. -/
def wholeDigits : List Char → Option (List Char × List Char)
  | '0' :: rest => some (['0'], rest)
  | cs => digitRun 10 cs

/-- The digits behind a decimal point, if there is one. -/
def fractionDigits : List Char → Option (List Char × List Char)
  | '.' :: rest => digitRun 10 rest
  | cs => some ([], cs)

/-- A sign in front: whether it is a minus, and what follows. -/
def splitSign : List Char → Bool × List Char
  | '-' :: rest => (true, rest)
  | '+' :: rest => (false, rest)
  | cs => (false, cs)

/-- The power of ten behind an exponent mark, if there is one. -/
def exponent : List Char → Option (Option Int × List Char)
  | c :: rest =>
    if c = 'e' || c = 'E' then
      let (negative, rest) := splitSign rest
      (digitRun 10 rest).map fun (ds, r) =>
        let n : Int := ofDigits 10 ds
        (some (if negative then -n else n), r)
    else some (none, c :: rest)
  | [] => some (none, [])

/-- A whole number if it fits 64 bits with sign. -/
def integer? (negative : Bool) (magnitude : Nat) : Option Value :=
  let n : Int := if negative then -magnitude else magnitude
  if Int64.minValue.toInt ≤ n && n ≤ Int64.maxValue.toInt then some (.integer n) else none

/-- A number of the binary format, unless it is above all of them. -/
def float? (negative : Bool) (digits : List Char) (exponent : Int) : Option Value :=
  let x := Text.Binary64.ofDecimal negative (ofDigits 10 digits) exponent
  if x = .infinite false then none else some (.float x)

/-- A number of decimal digits behind its sign, and what follows. -/
def decimalNumber (negative : Bool) (cs : List Char) : Option (Value × List Char) := do
  let (whole, rest) ← wholeDigits cs
  let (fraction, rest) ← fractionDigits rest
  let (power?, rest) ← exponent rest
  let value ← if fraction.isEmpty && power?.isNone then integer? negative (ofDigits 10 whole)
    else float? negative (whole ++ fraction) (power?.getD 0 - fraction.length)
  return (value, rest)

/-- A whole number of another base behind its mark, and what follows. -/
def basedNumber (base : Nat) (cs : List Char) : Option (Value × List Char) := do
  let (digits, rest) ← digitRun base cs
  return (← integer? false (ofDigits base digits), rest)

/-- A number in front, and what follows. -/
def number (cs : List Char) : Option (Value × List Char) :=
  match cs with
  | '0' :: 'x' :: rest => basedNumber 16 rest
  | '0' :: 'o' :: rest => basedNumber 8 rest
  | '0' :: 'b' :: rest => basedNumber 2 rest
  | cs =>
    match splitSign cs with
    | (negative, 'i' :: 'n' :: 'f' :: rest) => some (.float (.infinite negative), rest)
    | (_, 'n' :: 'a' :: 'n' :: rest) => some (.float .nan, rest)
    | (negative, rest) => decimalNumber negative rest

end Toml
end DiffusionMesh

/-
# Dates and times

| form | normal text |
| --- | --- |
| a day of the calendar | `1979-05-27` |
| a time of day, the fraction optional | `07:32:00.5` |
| a day and a time, between them `T`, `t` or a space | `1979-05-27T07:32:00` |
| the same with an offset, `Z`, `z` or hours and minutes | `1979-05-27T07:32:00+01:00` |

The normal text keeps at most nine digits of a fraction and drops zeros at its end. Seconds go
up to 60. An offset is at most a day; its normal text has fewer than sixty minutes, and `-00:00`
becomes `+00:00`.

A text that stands for a date or time is read with wider limits than the same characters in a
document.
-/

import DiffusionMesh.Toml.Numeral

namespace DiffusionMesh
namespace Toml

/-- Two digits whose number lies between the limits, and what follows. -/
def twoDigits (least greatest : Nat) : List Char → Option (List Char × List Char)
  | a :: b :: rest =>
    let n := ofDigits 10 [a, b]
    if a.isDigit && b.isDigit && least ≤ n && n ≤ greatest then some ([a, b], rest) else none
  | _ => none

/-- One given character, and what follows. -/
def exactly (c : Char) : List Char → Option (List Char)
  | d :: rest => if c = d then some rest else none
  | [] => none

/-- Whether a year of the calendar has a 29th of February. -/
def isLeapYear (year : Nat) : Bool := year % 4 = 0 && (year % 100 != 0 || year % 400 = 0)

/-- The days of a month. -/
def daysIn (year month : Nat) : Nat :=
  if month = 2 then if isLeapYear year then 29 else 28
  else if month = 4 || month = 6 || month = 9 || month = 11 then 30
  else 31

/-- A day, and what follows. -/
def day (cs : List Char) : Option (List Char × List Char) := do
  let (century, rest) ← twoDigits 0 99 cs
  let (decade, rest) ← twoDigits 0 99 rest
  let rest ← exactly '-' rest
  let (month, rest) ← twoDigits 1 12 rest
  let rest ← exactly '-' rest
  let year := century ++ decade
  let (day, rest) ← twoDigits 1 (daysIn (ofDigits 10 year) (ofDigits 10 month)) rest
  return (year ++ '-' :: month ++ '-' :: day, rest)

/-- The digits of a fraction of a second in its normal text: nine at most, no zero at the end. -/
def normalFraction (digits : List Char) : List Char :=
  match ((digits.take 9).reverse.dropWhile (· = '0')).reverse with
  | [] => []
  | kept => '.' :: kept

/-- A fraction of a second if a point stands in front, and what follows. -/
def secondFraction : List Char → Option (List Char × List Char)
  | '.' :: rest =>
    let digits := rest.takeWhile Char.isDigit
    if digits.isEmpty then none else some (normalFraction digits, rest.dropWhile Char.isDigit)
  | cs => some ([], cs)

/-- The greatest numbers that a clock and an offset may show. -/
structure ClockLimits where
  hour : Nat := 23
  offsetHour : Nat := 23
  offsetMinute : Nat := 59
deriving DecidableEq, Repr

/-- The limits for a text that stands for a date or time. -/
def ClockLimits.ofText : ClockLimits := ⟨24, 99, 99⟩

/-- A time of day, and what follows. -/
def timeOfDay (limits : ClockLimits) (cs : List Char) : Option (List Char × List Char) := do
  let (hour, rest) ← twoDigits 0 limits.hour cs
  let rest ← exactly ':' rest
  let (minute, rest) ← twoDigits 0 59 rest
  let rest ← exactly ':' rest
  let (second, rest) ← twoDigits 0 60 rest
  let (fraction, rest) ← secondFraction rest
  return (hour ++ ':' :: minute ++ ':' :: second ++ fraction, rest)

/-- The minutes of a day. -/
def dayMinutes : Nat := 24 * 60

/-- The minutes of an offset, at most a day, and what follows. -/
def offsetMinutes (limits : ClockLimits) (cs : List Char) : Option (Nat × List Char) := do
  let (hour, rest) ← twoDigits 0 limits.offsetHour cs
  let rest ← exactly ':' rest
  let (minute, rest) ← twoDigits 0 limits.offsetMinute rest
  let minutes := 60 * ofDigits 10 hour + ofDigits 10 minute
  guard (minutes ≤ dayMinutes)
  return (minutes, rest)

/-- A number of two digits. -/
def twoPlaces (n : Nat) : List Char := (Text.padZeros 2 (toString n)).toList

/-- The normal text of an offset. -/
def offsetText (negative : Bool) (minutes : Nat) : List Char :=
  (if negative && minutes != 0 then '-' else '+') ::
    twoPlaces (minutes / 60) ++ ':' :: twoPlaces (minutes % 60)

/-- An offset, and what follows. -/
def offset (limits : ClockLimits) : List Char → Option (List Char × List Char)
  | 'Z' :: rest => some (['Z'], rest)
  | 'z' :: rest => some (['Z'], rest)
  | '+' :: rest => (offsetMinutes limits rest).map fun (n, r) => (offsetText false n, r)
  | '-' :: rest => (offsetMinutes limits rest).map fun (n, r) => (offsetText true n, r)
  | _ => none

/-- The time that follows a day, with its offset, and what follows. -/
def timeAfterDay (limits : ClockLimits) : List Char → Option (List Char × List Char)
  | c :: rest => do
    guard (c = 'T' || c = 't' || c = ' ')
    let (time, rest) ← timeOfDay limits rest
    let (offset, rest) := (offset limits rest).getD ([], rest)
    return ('T' :: time ++ offset, rest)
  | [] => none

/-- The normal text of a date or time in front, and what follows. -/
def momentIn (limits : ClockLimits) (cs : List Char) : Option (List Char × List Char) :=
  match day cs with
  | some (day, rest) =>
    let (time, rest) := (timeAfterDay limits rest).getD ([], rest)
    some (day ++ time, rest)
  | none => timeOfDay limits cs

/-- A date or time in front, and what follows. -/
def moment (cs : List Char) : Option (Value × List Char) :=
  (momentIn {} cs).map fun (text, rest) => (.text (String.ofList text), rest)

/-- The normal text of a text that stands for a date or time. -/
def momentOfText? (text : String) : Option String := do
  let (normal, rest) ← momentIn .ofText text.toList
  guard rest.isEmpty
  return String.ofList normal

end Toml
end DiffusionMesh

/-
# Reading decimal numbers

A natural number is one or more digits. A plus may stand in front; for a number with sign, also
a minus. Nothing else is read: no blanks, no separators, no other digits than those of ASCII.
-/

namespace DiffusionMesh
namespace Text

/-- The number that digits stand for, if there are only digits and at least one. -/
def naturalOf? (cs : List Char) : Option Nat :=
  if !cs.isEmpty && cs.all Char.isDigit then
    some (cs.foldl (fun n c => 10 * n + (c.toNat - '0'.toNat)) 0)
  else none

/-- A number without sign; a plus is allowed. -/
def unsigned? (s : String) : Option Nat :=
  match s.toList with
  | '+' :: digits => naturalOf? digits
  | digits => naturalOf? digits

/-- A number with or without sign. -/
def signed? (s : String) : Option Int :=
  match s.toList with
  | '-' :: digits => (naturalOf? digits).map fun n => -(n : Int)
  | _ => (unsigned? s).map Int.ofNat

end Text
end DiffusionMesh

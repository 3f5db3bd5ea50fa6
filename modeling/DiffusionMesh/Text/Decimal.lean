/-
# Decimal text of a fraction

A fraction is written with a fixed number of decimal places. The last digit is rounded to the
nearest value, and a fraction half way between two values takes the even one. The sign is given
apart from the magnitude, so a negative fraction that rounds to zero still shows its sign.

Main statement: `roundDiv_spec`, a rounded quotient is within half a unit of the fraction.
-/

namespace DiffusionMesh
namespace Text

/-- A power of two. -/
abbrev twoTo (n : Nat) : Nat := Nat.pow 2 n

/-- A power of ten. -/
abbrev tenTo (n : Nat) : Nat := Nat.pow 10 n

/-- The natural number nearest to `num / den`; half way between two, the even one. -/
def roundDiv (num den : Nat) : Nat :=
  let quotient := num / den
  let twice := 2 * (num % den)
  if twice < den then quotient
  else if den < twice then quotient + 1
  else quotient + quotient % 2

/-- **A rounded quotient is within half a unit of the fraction.** -/
theorem roundDiv_spec (num den : Nat) (h : 0 < den) :
    2 * num ≤ 2 * (roundDiv num den * den) + den ∧
      2 * (roundDiv num den * den) ≤ 2 * num + den := by
  have hdiv : den * (num / den) + num % den = num := Nat.div_add_mod num den
  have hmod : num % den < den := Nat.mod_lt num h
  have hcomm : num / den * den = den * (num / den) := Nat.mul_comm _ _
  unfold roundDiv
  simp only
  split
  · omega
  · split
    · rw [Nat.add_mul, hcomm]; omega
    · rcases Nat.mod_two_eq_zero_or_one (num / den) with hpar | hpar <;>
        rw [hpar, Nat.add_mul, hcomm] <;> omega

/-- `text` with zeros in front, up to `width` characters. -/
def padZeros (width : Nat) (text : String) : String :=
  String.ofList (List.replicate (width - text.length) '0') ++ text

/-- The sign that stands before a magnitude. -/
def sign (negative : Bool) : String := if negative then "-" else ""

/-- `num / den` with `places` decimal places. -/
def fixedPlaces (places : Nat) (negative : Bool) (num den : Nat) : String :=
  let unit := tenTo places
  let scaled := roundDiv (num * unit) den
  let whole := sign negative ++ toString (scaled / unit)
  if places = 0 then whole
  else whole ++ "." ++ padZeros places (toString (scaled % unit))

end Text
end DiffusionMesh

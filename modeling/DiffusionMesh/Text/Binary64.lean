/-
# Binary64 numbers as exact values

A number of the 64-bit binary format is kept as sign, mantissa and exponent, so that every
operation on it is arithmetic of whole numbers. `ofRatio` is the only place where rounding
happens: it takes a fraction to the nearest number of the format, and a fraction half way
between two numbers to the one with the even mantissa.

| range | mantissa `m`, exponent `e`, value `m · 2ᵉ` |
| --- | --- |
| normal | `2⁵² ≤ m < 2⁵³`, `-1074 ≤ e ≤ 971` |
| subnormal and zero | `m < 2⁵²`, `e = -1074` |
-/

import DiffusionMesh.Text.Decimal

namespace DiffusionMesh
namespace Text

/-- A number of the 64-bit binary format. -/
inductive Binary64 where
  | nan
  | infinite (negative : Bool)
  /-- The value is `mantissa · 2 ^ exponent`. -/
  | finite (negative : Bool) (mantissa : Nat) (exponent : Int)
deriving DecidableEq, Repr

namespace Binary64

/-- The least exponent of the format. -/
def leastExponent : Int := -1074

/-- The greatest exponent of the format. -/
def greatestExponent : Int := 971

/-- Zero with a sign. -/
def zero (negative : Bool) : Binary64 := .finite negative 0 leastExponent

/-- The fraction `num / den` divided by `2 ^ exponent`, as numerator and denominator. -/
def scaleDown (num den : Nat) (exponent : Int) : Nat × Nat :=
  if 0 ≤ exponent then (num, den * twoTo exponent.toNat) else (num * twoTo (-exponent).toNat, den)

/-- The exponent at which the mantissa of `num / den` has 53 bits, or the least one. -/
def exponentOf (num den : Nat) : Int :=
  let guess : Int := (num.log2 : Int) - (den.log2 : Int) - 53
  let (scaledNum, scaledDen) := scaleDown num den guess
  let exponent := if scaledNum / scaledDen < twoTo 53 then guess else guess + 1
  max exponent leastExponent

/-- The number of the format nearest to `num / den`. -/
def ofRatio (negative : Bool) (num den : Nat) : Binary64 :=
  if num = 0 ∨ den = 0 then zero negative
  else
    let exponent := exponentOf num den
    let (scaledNum, scaledDen) := scaleDown num den exponent
    let rounded := roundDiv scaledNum scaledDen
    let (mantissa, exponent) :=
      if rounded = twoTo 53 then (twoTo 52, exponent + 1) else (rounded, exponent)
    if greatestExponent < exponent then .infinite negative
    else .finite negative mantissa exponent

/-- The number nearest to `digits · 10 ^ exponent`. Beyond four hundred places the answer is
known without the power of ten. -/
def ofDecimal (negative : Bool) (digits : Nat) (exponent : Int) : Binary64 :=
  if digits = 0 then zero negative
  else if 400 < exponent then .infinite negative
  else if exponent + (digits.log2 : Int) < -1200 then zero negative
  else if 0 ≤ exponent then ofRatio negative (digits * tenTo exponent.toNat) 1
  else ofRatio negative digits (tenTo (-exponent).toNat)

/-- The magnitude as a fraction; nothing for an infinity and for no number. -/
def magnitude? : Binary64 → Option (Nat × Nat)
  | .finite _ mantissa exponent =>
    if 0 ≤ exponent then some (mantissa * twoTo exponent.toNat, 1)
    else some (mantissa, twoTo (-exponent).toNat)
  | _ => none

/-- The sign bit. -/
def isNegative : Binary64 → Bool
  | .nan => false
  | .infinite negative => negative
  | .finite negative _ _ => negative

/-- The 64 bits of the interchange format. -/
def bits (x : Binary64) : UInt64 :=
  let signBit : UInt64 := if x.isNegative then 0x8000000000000000 else 0
  match x with
  | .nan => 0x7ff8000000000000
  | .infinite _ => signBit ||| 0x7ff0000000000000
  | .finite _ mantissa exponent =>
    if mantissa < twoTo 52 then signBit ||| UInt64.ofNat mantissa
    else
      let biased := (exponent + 1075).toNat
      signBit ||| (UInt64.ofNat biased <<< 52) ||| UInt64.ofNat (mantissa - twoTo 52)

/-- The sum of two numbers that are not negative, rounded once. -/
def addPositive (x y : Binary64) : Binary64 :=
  match x.magnitude?, y.magnitude? with
  | some (a, b), some (c, d) => ofRatio false (a * d + c * b) (b * d)
  | _, _ => .infinite false

/-- The quotient of two numbers that are not negative, the second one not zero, rounded once. -/
def divPositive (x y : Binary64) : Binary64 :=
  match x.magnitude?, y.magnitude? with
  | some (a, b), some (c, d) => ofRatio false (a * d) (b * c)
  | _, _ => .nan

/-- The nearest whole number, a half away from zero. Infinities have none. -/
def roundAway? (x : Binary64) : Option Int :=
  x.magnitude?.map fun (num, den) =>
    let whole : Int := ((2 * num + den) / (2 * den) : Nat)
    if x.isNegative then -whole else whole

/-- The number with `places` decimal places. -/
def fixedPlaces (places : Nat) (x : Binary64) : String :=
  match x.magnitude? with
  | some (num, den) => Text.fixedPlaces places x.isNegative num den
  | none =>
    match x with
    | .nan => "NaN"
    | _ => sign x.isNegative ++ "inf"

/-! ### The shortest decimal that reads back -/

/-- The fractions half way to the two neighbours, over one denominator, and whether they
themselves round to the number. -/
def roundingInterval (mantissa : Nat) (exponent : Int) : Nat × Nat × Nat × Bool :=
  let lowGap := if mantissa = twoTo 52 ∧ leastExponent < exponent then 1 else 2
  let low := 4 * mantissa - lowGap
  let high := 4 * mantissa + 2
  let even := mantissa % 2 = 0
  let shifted := exponent - 2
  if 0 ≤ shifted then (low * twoTo shifted.toNat, high * twoTo shifted.toNat, 1, even)
  else (low, high, twoTo (-shifted).toNat, even)

/-- Whether `digits · 10 ^ place` lies between the two ends. -/
def insideInterval (low high den : Nat) (closed : Bool) (digits : Nat) (place : Int) : Bool :=
  let scaled := if 0 ≤ place then digits * tenTo place.toNat * den else digits * den
  let unit := if 0 ≤ place then 1 else tenTo (-place).toNat
  if closed then low * unit ≤ scaled && scaled ≤ high * unit
  else low * unit < scaled && scaled < high * unit

/-- The place of the leading digit of `num / den`: the greatest `p` with `10 ^ p ≤ num / den`,
sought from `p` downwards. -/
def leadingPlace (num den : Nat) : Nat → Int → Int
  | 0, place => place
  | steps + 1, place =>
    let reached :=
      if 0 ≤ place then tenTo place.toNat * den ≤ num else den ≤ num * tenTo (-place).toNat
    if reached then place else leadingPlace num den steps (place - 1)

/-- The digits and their place on the coarsest decimal grid that has a point in the interval,
with `left` grids still to try. Of two points the nearer one is taken, and half way between them
the upper one. -/
def shortestOn (num den low high intervalDen : Nat) (closed : Bool) (top : Int) :
    Nat → Nat → Nat × Int
  | 0, _ => (0, 0)
  | left + 1, count =>
    let place := top - (count : Int)
    let (n, d) := if 0 ≤ place then (num, den * tenTo place.toNat)
      else (num * tenTo (-place).toNat, den)
    let below := n / d
    let above := below + 1
    let belowIn := insideInterval low high intervalDen closed below place
    let aboveIn := insideInterval low high intervalDen closed above place
    if belowIn && (!aboveIn || 2 * (n % d) < d) then (below, place)
    else if aboveIn then (above, place)
    else shortestOn num den low high intervalDen closed top left (count + 1)

/-- `digits · 10 ^ place` without an exponent. -/
def positional (digits : Nat) (place : Int) : String :=
  if 0 ≤ place then toString (digits * tenTo place.toNat)
  else
    let places := (-place).toNat
    toString (digits / tenTo places) ++ "." ++ padZeros places (toString (digits % tenTo places))

/-- The fewest digits that read back, written without an exponent and with a decimal point. -/
def shortest (x : Binary64) : String :=
  match x with
  | .nan => "NaN"
  | .infinite negative => sign negative ++ "inf"
  | .finite negative 0 _ => sign negative ++ "0.0"
  | .finite negative mantissa exponent =>
    match x.magnitude? with
    | none => ""
    | some (num, den) =>
      let (low, high, intervalDen, closed) := roundingInterval mantissa exponent
      let top := leadingPlace num den 700 320 + 1
      let (digits, place) := shortestOn num den low high intervalDen closed top 19 0
      let text := positional digits place
      sign negative ++ (if 0 ≤ place then text ++ ".0" else text)

end Binary64
end Text
end DiffusionMesh

/-
# Temperatures within bounds

Sums of temperatures wrap. A step therefore gives the mean of the four neighbors of a position only
where their sum fits a word, `Temperature.toInt_next_iff`. Means lie between what they are taken of,
so as long as no sum wraps, the temperatures of the grid stay between bounds for zero and the four
sides:

```
   lo ≤ field n ≤ hi, the sums of step n fit ──▶ lo ≤ field (n + 1) ≤ hi
```

Bounds from -2²⁹ to 2²⁹ - 1, a quarter of the range of a word, leave room for every sum. In whole
degrees these are -8192 and 8191. At 8192 degrees the first sum may wrap.

Main statements: `field_lies` and `noWrap_of_lies` for words, and for whole degrees `field_between`
and `field_noWrap`.
-/

import DiffusionMesh.Proofs.Tile.Field
import Mathlib.Algebra.Ring.Nat

namespace DiffusionMesh

namespace Temperature

/-- A number that a word can hold. -/
def Fits (x : Int) : Prop := -2147483648 ≤ x ∧ x ≤ 2147483647

/-- A temperature whose word is a number from `lo` to `hi`. -/
def Lies (lo hi : Int) (t : Temperature) : Prop := lo ≤ t.bits.toInt ∧ t.bits.toInt ≤ hi

/-- A temperature from `lo` to `hi` whole degrees. -/
def Between (lo hi : Int) (t : Temperature) : Prop :=
  lo * 65536 ≤ t.bits.toInt ∧ t.bits.toInt ≤ hi * 65536

/-- The sum of the temperatures around a position, as a number without any bound. -/
def sum (around : Direction → Temperature) : Int :=
  (around .north).bits.toInt + (around .south).bits.toInt + (around .west).bits.toInt +
    (around .east).bits.toInt

/-- The temperatures around a position can be added one after the other without a wrap. -/
structure NoWrap (around : Direction → Temperature) : Prop where
  two : Fits ((around .north).bits.toInt + (around .south).bits.toInt)
  three : Fits ((around .north).bits.toInt + (around .south).bits.toInt +
    (around .west).bits.toInt)
  four : Fits (sum around)

/-- The temperature that a step gives to a position. -/
def next (old : Temperature) (around : Direction → Temperature) : Temperature :=
  nextTemperature old (around .north) (around .south) (around .east) (around .west)

variable {lo hi : Int} {around : Direction → Temperature}

/-- A quarter is taken by an arithmetic shift. -/
theorem toBitVec_quarter (t : Temperature) :
    t.quarter.bits.toBitVec = t.bits.toBitVec.sshiftRight 2 := by
  rw [quarter, Int32.toBitVec_shiftRight]
  rfl

theorem toInt_quarter (t : Temperature) : t.quarter.bits.toInt = t.bits.toInt / 4 := by
  rw [← Int32.toInt_toBitVec, toBitVec_quarter, BitVec.toInt_sshiftRight, Int32.toInt_toBitVec,
    Int.shiftRight_eq_div_pow]
  rfl

/-- A step takes a quarter of the wrapped sum. -/
theorem toInt_next (old : Temperature) (around : Direction → Temperature) :
    (next old around).bits.toInt = (sum around).bmod (2 ^ 32) / 4 := by
  rw [next, nextTemperature_eq, toInt_quarter]
  simp only [bits_add, Int32.toInt_add, Int.bmod_add_bmod, sum]

theorem eq_of_toInt_eq {t t' : Temperature} (h : t.bits.toInt = t'.bits.toInt) : t = t' :=
  congrArg Temperature.mk (Int32.toInt_inj.1 h)

/-- **A step depends on the sum alone**, wrapped or not: neither on the temperature that it replaces
nor on which neighbor holds what. -/
theorem next_congr {around around' : Direction → Temperature} (h : sum around = sum around')
    (old old' : Temperature) : next old around = next old' around' :=
  eq_of_toInt_eq (by rw [toInt_next, toInt_next, h])

/-- **A step gives the floor of the mean exactly where the sum fits.** Where it wraps, the result is
off by a quarter of the range of a word. -/
theorem toInt_next_iff (old : Temperature) (around : Direction → Temperature) :
    (next old around).bits.toInt = sum around / 4 ↔ Fits (sum around) := by
  rw [toInt_next, Fits]
  generalize sum around = x
  rw [Int.bmod_eq_emod]
  split <;> omega

/-- A mean lies between what it is taken of. -/
theorem lies_next (h : ∀ d, Lies lo hi (around d)) (hfits : Fits (sum around))
    (old : Temperature) : Lies lo hi (next old around) := by
  have hnorth := h .north
  have hsouth := h .south
  have heast := h .east
  have hwest := h .west
  rw [Lies, (toInt_next_iff old around).2 hfits, sum]
  simp only [Lies] at hnorth hsouth heast hwest
  omega

/-- A quarter of the range of a word leaves room for four summands. -/
theorem noWrap_of_lies (h : ∀ d, Lies lo hi (around d)) (hlo : -536870912 ≤ lo)
    (hhi : hi ≤ 536870911) : NoWrap around := by
  have hnorth := h .north
  have hsouth := h .south
  have heast := h .east
  have hwest := h .west
  simp only [Lies] at hnorth hsouth heast hwest
  refine ⟨?_, ?_, ?_⟩ <;> simp only [Fits, sum] <;> omega

theorem lies_zero (hlo : lo ≤ 0) (hhi : 0 ≤ hi) : Lies lo hi .zero := ⟨hlo, hhi⟩

/-- Whole degrees that fit are represented exactly. -/
theorem toInt_ofDegrees {d : Int32} (h : -32768 ≤ d.toInt ∧ d.toInt ≤ 32767) :
    (ofDegrees d).bits.toInt = d.toInt * 65536 := by
  have hmul : d <<< 16 = d * 65536 := by
    rw [← Int32.toBitVec_inj, Int32.toBitVec_shiftLeft, Int32.toBitVec_mul]
    exact BitVec.shiftLeft_eq_mul_twoPow _ 16
  rw [ofDegrees, hmul, Int32.toInt_mul, show (65536 : Int32).toInt = 65536 from rfl,
    Int.bmod_eq_of_le (by omega) (by omega)]

end Temperature

open Temperature (Between Fits Lies NoWrap)

variable {lo hi : Int} {L : Nat} {b : Border}

theorem ringValue_lies (hlo : lo ≤ 0) (hhi : 0 ≤ hi) (hb : ∀ d, Lies lo hi (b.get d))
    (r c : Nat) : Lies lo hi (Solver.ringValue L b r c) := by
  rcases ringValue_cases L r c with ⟨d, -, hside⟩ | hzero
  · rw [hside]
    exact hb d
  · rw [hzero]
    exact Temperature.lies_zero hlo hhi

/-- **As long as no sum wraps, the field stays within its bounds.** -/
theorem field_lies (hlo : lo ≤ 0) (hhi : 0 ≤ hi) (hb : ∀ d, Lies lo hi (b.get d)) {n : Nat}
    (hfits : ∀ m, m < n → ∀ r c, Solver.inside L r c = true →
      Fits (Temperature.sum (surroundings L b m r c))) (r c : Nat) :
    Lies lo hi (field L b n r c) := by
  induction n generalizing r c with
  | zero => exact ringValue_lies hlo hhi hb r c
  | succ n ih =>
    cases hin : Solver.inside L r c with
    | false =>
      rw [field_of_not_inside hin]
      exact ringValue_lies hlo hhi hb r c
    | true =>
      rw [field_succ_of_inside hin]
      exact Temperature.lies_next
        (fun d => ih (fun m hm => hfits m (Nat.lt_succ_of_lt hm)) _ _)
        (hfits n (Nat.lt_succ_self n) r c hin) (field L b n r c)

/-- **With enough room no sum ever wraps.** -/
theorem field_noWrap_of_lies (hlo : lo ≤ 0) (hhi : 0 ≤ hi) (hlo' : -536870912 ≤ lo)
    (hhi' : hi ≤ 536870911) (hb : ∀ d, Lies lo hi (b.get d)) (n r c : Nat) :
    NoWrap (surroundings L b n r c) := by
  induction n using Nat.strongRecOn generalizing r c with
  | ind n ih =>
    have hlies := field_lies (n := n) hlo hhi hb fun m hm r c _ => (ih m hm r c).four
    exact Temperature.noWrap_of_lies (fun d => hlies _ _) hlo' hhi'

/-- The bounds in whole degrees. -/
theorem field_between (hlo : lo ≤ 0) (hhi : 0 ≤ hi) (hb : ∀ d, Between lo hi (b.get d)) {n : Nat}
    (hfits : ∀ m, m < n → ∀ r c, Solver.inside L r c = true →
      Fits (Temperature.sum (surroundings L b m r c))) (r c : Nat) :
    Between lo hi (field L b n r c) :=
  field_lies (by omega) (by omega) hb hfits r c

/-- The room in whole degrees. -/
theorem field_noWrap (hlo : lo ≤ 0) (hhi : 0 ≤ hi) (hlo' : -8192 ≤ lo) (hhi' : hi ≤ 8191)
    (hb : ∀ d, Between lo hi (b.get d)) (n r c : Nat) : NoWrap (surroundings L b n r c) :=
  field_noWrap_of_lies (by omega) (by omega) (by omega) (by omega) hb n r c

/-! ### The solver and its steps -/

namespace Solver

/-- The temperatures around a row and a column of the grid. -/
def around (s : Solver) (i j : Nat) : Direction → Temperature :=
  s.neighbor ((i + 1) * s.width + j + 1)

/-- All temperatures of the grid lie between two whole degrees. -/
def Within (lo hi : Int) (s : Solver) : Prop :=
  ∀ i j, i < s.side → j < s.side → ∃ t, s.get? i j = some t ∧ Between lo hi t

/-- No sum of the next step wraps. -/
def SumsFit (s : Solver) : Prop :=
  ∀ i j, i < s.side → j < s.side → Fits (Temperature.sum (s.around i j))

/-- The next step gives each position the floor of the mean around it. -/
def Floors (s : Solver) : Prop :=
  ∀ i j, i < s.side → j < s.side →
    (s.step.value i j).bits.toInt = Temperature.sum (s.around i j) / 4

theorem run_succ (n : Nat) (s : Solver) : run (n + 1) s = (run n s).step := by
  induction n generalizing s with
  | zero => rfl
  | succ n ih => exact ih s.step

theorem around_run (L : Nat) (b : Border) (n : Nat) {i j : Nat} (hi : i < L) (hj : j < L) :
    (run n (create L b)).around i j = surroundings L b n (i + 1) (j + 1) := by
  have h := (holds_create L b).run n
  rw [Nat.zero_add] at h
  funext d
  rw [around, width, h.side, Nat.add_assoc]
  exact h.neighbor_eq (inside_iff.2 (by omega)) d

theorem within_run {n : Nat} (h : ∀ r c, Between lo hi (field L b n r c)) :
    (run n (create L b)).Within lo hi := by
  intro i j hi hj
  rw [side_run] at hi hj
  exact ⟨_, get?_run L b n hi hj, h _ _⟩

/-- The sums of the solver are those of the field. -/
theorem sumsFit_run_iff (L : Nat) (b : Border) (n : Nat) : (run n (create L b)).SumsFit ↔
    ∀ r c, inside L r c = true → Fits (Temperature.sum (surroundings L b n r c)) := by
  constructor
  · intro h r c hin
    have hplace := inside_iff.1 hin
    have hfits := h (r - 1) (c - 1) (by rw [side_run]; omega) (by rw [side_run]; omega)
    rwa [around_run L b n (by omega) (by omega), Nat.sub_add_cancel hplace.1.1,
      Nat.sub_add_cancel hplace.2.1] at hfits
  · intro h i j hi hj
    rw [side_run] at hi hj
    rw [around_run L b n hi hj]
    exact h _ _ (inside_iff.2 (by omega))

/-- **A step of the solver takes means exactly where its sums fit.** -/
theorem floors_run_iff (L : Nat) (b : Border) (n : Nat) :
    (run n (create L b)).Floors ↔ (run n (create L b)).SumsFit := by
  have hat : ∀ {i j}, i < L → j < L → ((run n (create L b)).step.value i j =
      Temperature.next (field L b n (i + 1) (j + 1)) ((run n (create L b)).around i j)) := by
    intro i j hi hj
    rw [← run_succ, value_run L b (n + 1) hi hj, around_run L b n hi hj,
      field_succ_of_inside (inside_iff.2 (by omega))]
    rfl
  simp only [Floors, SumsFit, side_run]
  constructor
  · intro h i j hi hj
    have hfloor := h i j hi hj
    rw [hat hi hj] at hfloor
    exact (Temperature.toInt_next_iff _ _).1 hfloor
  · intro h i j hi hj
    rw [hat hi hj]
    exact (Temperature.toInt_next_iff _ _).2 (h i j hi hj)

end Solver

/-! ### Tiles and their steps -/

/-- All temperatures of a tile lie between two whole degrees. -/
def Tile.Within (lo hi : Int) (t : Tile) : Prop :=
  ∀ i j, i < t.size → j < t.size → ∃ v, t.get? i j = some v ∧ Between lo hi v

theorem Tile.within_field {S n r₀ c₀ : Nat} (h : ∀ r c, Between lo hi (field L b n r c)) :
    (fieldTile S L b n r₀ c₀).Within lo hi :=
  fun _ _ hi hj => ⟨_, Tile.get?_ofFn _ hi hj, h _ _⟩

/-- No addition of the next step of a tile wraps, and each position gets the floor of the mean
around it. -/
structure LocalState.StepsExactly (s : LocalState) : Prop where
  noWrap : ∀ i j, i < s.size → j < s.size → NoWrap (s.neighbor i j)
  floor : ∀ i j, i < s.size → j < s.size →
    (s.update.next.value i j).bits.toInt = Temperature.sum (s.neighbor i j) / 4

theorem LocalState.stepsExactly {s : LocalState}
    (h : ∀ i j, i < s.size → j < s.size → NoWrap (s.neighbor i j)) : s.StepsExactly where
  noWrap := h
  floor i j hi hj := by
    rw [s.update_next_value hi hj, ← nextTemperature_eq (s.current.value i j)]
    exact (Temperature.toInt_next_iff _ _).2 (h i j hi hj).four

end DiffusionMesh

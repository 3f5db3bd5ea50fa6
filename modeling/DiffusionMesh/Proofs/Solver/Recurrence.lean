/-
# The solver computes a recurrence on words

Rows and columns are counted from the first position here, as integers, so the places just outside a
grid of side `L` are row -1, row `L`, column -1 and column `L`. `heat L b n r c` is the word that
stands at row `r` and column `c` after `n` steps:

```
   heat 0       r c = 0
   heat (n + 1) r c = (heat n (r-1) c + heat n (r+1) c + heat n r (c-1) + heat n r (c+1)) >>> 2
```

inside the grid, with sums that wrap at 32 bits and a shift that keeps the sign. Outside, `heat` is
the border at all times. The word that a step replaces does not occur.

The solver has two grids that take turns, and each is filled only inside its ring. That the other
grid has the ring as well is what `Solver.Holds` carries from step to step, `Ringed` says it of the
arrays, place by place. Main statement: `Solver.run_eq_heat`.
-/

import DiffusionMesh.Proofs.Solver.Loops
import DiffusionMesh.Proofs.Tile.Range

namespace DiffusionMesh

/-- The word of the border at a position outside a grid of side `L`. The corners beyond two sides at
once are never read. -/
def outside? (L : Nat) (b : Border) (r c : Int) : Option (BitVec 32) :=
  if r < 0 then some b.north.bits.toBitVec
  else if L ≤ r then some b.south.bits.toBitVec
  else if c < 0 then some b.west.bits.toBitVec
  else if L ≤ c then some b.east.bits.toBitVec
  else none

/-- The word at a position of a grid of side `L`, or just outside it, after `n` steps. -/
def heat (L : Nat) (b : Border) : (n : Nat) → (r c : Int) → BitVec 32
  | 0, r, c => (outside? L b r c).getD 0
  | n + 1, r, c => (outside? L b r c).getD <|
    (heat L b n (r - 1) c + heat L b n (r + 1) c + heat L b n r (c - 1) +
      heat L b n r (c + 1)).sshiftRight 2

section

variable {L : Nat} {b : Border}

theorem outside?_of_inside {r c : Nat} (h : Solver.inside L r c = true) :
    outside? L b ((r : Int) - 1) ((c : Int) - 1) = none := by
  obtain ⟨hr, hc⟩ := inside_iff.1 h
  unfold outside?
  rw [if_neg (by omega), if_neg (by omega), if_neg (by omega), if_neg (by omega)]

theorem outside?_of_onSide {r c : Nat} {d : Direction} (h : OnSide L r c d) :
    outside? L b ((r : Int) - 1) ((c : Int) - 1) = some (b.get d).bits.toBitVec := by
  unfold outside?
  cases d with
  | north =>
    obtain ⟨hr, hc⟩ := h
    rw [if_pos (by omega)]
    rfl
  | south =>
    obtain ⟨hr, hc⟩ := h
    rw [if_neg (by omega), if_pos (by omega)]
    rfl
  | east =>
    obtain ⟨hc, hr⟩ := h
    rw [if_neg (by omega), if_neg (by omega), if_neg (by omega), if_pos (by omega)]
    rfl
  | west =>
    obtain ⟨hc, hr⟩ := h
    rw [if_neg (by omega), if_neg (by omega), if_pos (by omega)]
    rfl

/-- A place that is neither inside the ring nor one of its corners is on a side of it. -/
theorem exists_onSide {r c : Nat} (h : Solver.inside L r c = false) (hr : r ≤ L + 1)
    (hc : c ≤ L + 1) (hside : (1 ≤ r ∧ r ≤ L) ∨ (1 ≤ c ∧ c ≤ L)) : ∃ d, OnSide L r c d := by
  have hout : ¬ ((1 ≤ r ∧ r ≤ L) ∧ 1 ≤ c ∧ c ≤ L) := by
    rw [← inside_iff, h]
    exact Bool.false_ne_true
  obtain hnorth | hsouth | heast | hwest : r = 0 ∨ r = L + 1 ∨ c = L + 1 ∨ c = 0 := by omega
  · exact ⟨.north, hnorth, by omega⟩
  · exact ⟨.south, hsouth, by omega⟩
  · exact ⟨.east, heast, by omega⟩
  · exact ⟨.west, hwest, by omega⟩

/-- **The field is the recurrence**, its rows and columns counted from the ring. -/
theorem toBitVec_field (n : Nat) {r c : Nat} (hr : r ≤ L + 1) (hc : c ≤ L + 1)
    (hside : (1 ≤ r ∧ r ≤ L) ∨ (1 ≤ c ∧ c ≤ L)) :
    (field L b n r c).bits.toBitVec = heat L b n ((r : Int) - 1) ((c : Int) - 1) := by
  induction n generalizing r c with
  | zero =>
    unfold heat
    cases hin : Solver.inside L r c with
    | true =>
      rw [field_zero_of_inside hin, outside?_of_inside hin]
      rfl
    | false =>
      obtain ⟨d, hd⟩ := exists_onSide hin hr hc hside
      rw [field_of_not_inside hin, ringValue_of_onSide hd, outside?_of_onSide hd]
      rfl
  | succ n ih =>
    unfold heat
    cases hin : Solver.inside L r c with
    | true =>
      obtain ⟨hr', hc'⟩ := inside_iff.1 hin
      have hnorth := ih (r := r - 1) (c := c) (by omega) (by omega) (.inr hc')
      have hsouth := ih (r := r + 1) (c := c) (by omega) (by omega) (.inr hc')
      have heast := ih (r := r) (c := c + 1) (by omega) (by omega) (.inl hr')
      have hwest := ih (r := r) (c := c - 1) (by omega) (by omega) (.inl hr')
      rw [show ((r - 1 : Nat) : Int) - 1 = (r : Int) - 1 - 1 by omega] at hnorth
      rw [show ((r + 1 : Nat) : Int) - 1 = (r : Int) - 1 + 1 by omega] at hsouth
      rw [show ((c + 1 : Nat) : Int) - 1 = (c : Int) - 1 + 1 by omega] at heast
      rw [show ((c - 1 : Nat) : Int) - 1 = (c : Int) - 1 - 1 by omega] at hwest
      rw [outside?_of_inside hin, Option.getD_none, ← hnorth, ← hsouth, ← heast, ← hwest,
        field_succ_of_inside hin, nextTemperature_eq, Temperature.toBitVec_quarter]
      simp [surroundings, adjacent]
    | false =>
      obtain ⟨d, hd⟩ := exists_onSide hin hr hc hside
      rw [field_of_not_inside hin, ringValue_of_onSide hd, outside?_of_onSide hd]
      rfl

end

/-- A grid of side `L` in its ring: the four sides hold the border, and the corners are zero. -/
structure Ringed (L : Nat) (b : Border) (grid : Array Temperature) : Prop where
  north : ∀ k, 1 ≤ k → k ≤ L → grid[k]? = some b.north
  south : ∀ k, 1 ≤ k → k ≤ L → grid[(L + 1) * (L + 2) + k]? = some b.south
  west : ∀ k, 1 ≤ k → k ≤ L → grid[k * (L + 2)]? = some b.west
  east : ∀ k, 1 ≤ k → k ≤ L → grid[k * (L + 2) + (L + 1)]? = some b.east
  corners : ∀ i ∈ [0, L + 1, (L + 1) * (L + 2), (L + 1) * (L + 2) + (L + 1)],
    grid[i]? = some .zero

namespace Solver

variable {s : Solver} {L : Nat} {b : Border} {n : Nat}

/-- The corners of the ring are zero. -/
theorem ringValue_corner {r c : Nat} (hr : r = 0 ∨ r = L + 1) (hc : c = 0 ∨ c = L + 1) :
    ringValue L b r c = .zero := by
  refine ringValue_of_not_onSide fun d => ?_
  cases d <;> simp only [OnSide] <;> omega

/-- A grid that holds the ring's temperatures around its positions. -/
theorem ringed_of {grid : Array Temperature} (h : ∀ {r c}, r < L + 2 → c < L + 2 →
      inside L r c = false → grid[r * (L + 2) + c]? = some (ringValue L b r c)) :
    Ringed L b grid := by
  have hout : ∀ {r c}, ¬ ((1 ≤ r ∧ r ≤ L) ∧ 1 ≤ c ∧ c ≤ L) → inside L r c = false := fun h => by
    rwa [← inside_iff, Bool.not_eq_true] at h
  constructor
  case north =>
    intro k hk hk'
    have hat := h (r := 0) (c := k) (by omega) (by omega) (hout (by omega))
    rwa [Nat.zero_mul, Nat.zero_add, (ringValue_sides b ⟨hk, hk'⟩).1] at hat
  case south =>
    intro k hk hk'
    rw [h (by omega) (by omega) (hout (by omega)), (ringValue_sides b ⟨hk, hk'⟩).2.1]
    rfl
  case west =>
    intro k hk hk'
    have hat := h (r := k) (c := 0) (by omega) (by omega) (hout (by omega))
    rwa [Nat.add_zero, (ringValue_sides b ⟨hk, hk'⟩).2.2.2] at hat
  case east =>
    intro k hk hk'
    rw [h (by omega) (by omega) (hout (by omega)), (ringValue_sides b ⟨hk, hk'⟩).2.2.1]
    rfl
  case corners =>
    have hcorner : ∀ {r c}, (r = 0 ∨ r = L + 1) → (c = 0 ∨ c = L + 1) →
        grid[r * (L + 2) + c]? = some .zero := by
      intro r c hr hc
      rw [h (by omega) (by omega) (hout (by omega)), ringValue_corner hr hc]
    have hnorthwest := hcorner (.inl rfl) (.inl rfl)
    have hnortheast := hcorner (.inl rfl) (.inr rfl)
    have hsouthwest := hcorner (.inr rfl) (.inl rfl)
    have hsoutheast := hcorner (.inr rfl) (.inr rfl)
    rw [Nat.zero_mul, Nat.zero_add] at hnorthwest hnortheast
    rw [Nat.add_zero] at hsouthwest
    simp [hnorthwest, hnortheast, hsouthwest, hsoutheast]

/-- **Both grids of a solver are in their rings**, the current one and the one that the next step
fills. -/
theorem Holds.ringed (h : s.Holds L b n) : Ringed L b s.current ∧ Ringed L b s.next := by
  constructor
  · refine ringed_of fun hr hc hout => ?_
    rw [getElem?_eq_place (h.size_current ▸ Tile.index_lt hr hc), h.current hr hc,
      field_of_not_inside hout]
  · refine ringed_of fun hr hc hout => ?_
    rw [getElem?_eq_getD (h.size_next ▸ Tile.index_lt hr hc), h.next hr hc hout]

/-- **The solver computes the recurrence.** For every side, border and number of steps: no index is
out of range, in the loop that makes the grids, in the steps and in reading the result; each
position holds the word of the recurrence; and both grids keep their rings. -/
theorem run_eq_heat (L : Nat) (b : Border) (n : Nat) :
    let s := run n (create L b)
    (create? L b).bind (run? n) = some s ∧
    (∀ r c, r < L → c < L → ∃ t, s.get? r c = some t ∧ t.bits.toBitVec = heat L b n r c) ∧
    s.bytes? = some s.bytes ∧
    Ringed L b s.current ∧ Ringed L b s.next := by
  intro s
  have hsized := sized_create L b
  have hholds := (holds_create L b).run n
  refine ⟨?_, fun r c hr hc => ?_, (hsized.run n).bytes?_eq, hholds.ringed⟩
  · rw [create?_eq, Option.bind_some, hsized.run?_eq]
  · refine ⟨_, get?_run L b n hr hc, ?_⟩
    rw [toBitVec_field n (by omega) (by omega) (.inl (by omega))]
    congr 1 <;> omega

end Solver
end DiffusionMesh

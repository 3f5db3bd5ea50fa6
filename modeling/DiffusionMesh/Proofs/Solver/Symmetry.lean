/-
# Symmetries of the grid

A grid may be mirrored from east to west, mirrored from north to south, and transposed. Each of
these maps places to places, turns directions with them, and takes neighbors to neighbors:

| symmetry | place, from the ring | directions |
| --- | --- | --- |
| `eastWest` | row `r`, column `L + 1 - c` | east and west change places |
| `northSouth` | row `L + 1 - r`, column `c` | north and south change places |
| `transposed` | row `c`, column `r` | north and west change places, and south and east |

If the sides of the border are turned along, the ring is mapped to the ring. A step depends on the
sum of the four neighbors alone, and a sum, wrapped or not, does not depend on which of them comes
first. So the field of the turned border is the field of the border, mapped. That is proved once,
for whatever maps have these properties (`Symmetry.field_eq`).

Main statement: `Solver.reflections`.
-/

import DiffusionMesh.Proofs.Tile.Range

namespace DiffusionMesh

/-- A border whose sides are those of another one in other places. -/
def Border.turned (b : Border) (turn : Direction → Direction) : Border :=
  .ofFn fun d => b.get (turn d)

/-- A map of the places of a grid, and how the directions turn with it. -/
structure Symmetry (L : Nat) (turn : Direction → Direction) (spot : Nat → Nat → Nat × Nat) :
    Prop where
  turn_turn : ∀ d, turn (turn d) = d
  inside : ∀ {r c}, r ≤ L + 1 → c ≤ L + 1 →
    Solver.inside L (spot r c).1 (spot r c).2 = Solver.inside L r c
  onSide : ∀ {r c}, r ≤ L + 1 → c ≤ L + 1 → ∀ d,
    OnSide L (spot r c).1 (spot r c).2 (turn d) ↔ OnSide L r c d
  adjacent : ∀ {r c}, Solver.inside L r c = true → ∀ d,
    adjacent (spot r c).1 (spot r c).2 (turn d) = spot (adjacent r c d).1 (adjacent r c d).2
  sum : ∀ around, Temperature.sum (fun d => around (turn d)) = Temperature.sum around

namespace Symmetry

variable {L : Nat} {turn : Direction → Direction} {spot : Nat → Nat → Nat × Nat}

/-- The ring of a turned border is the ring of the border at the places mapped. -/
theorem ringValue_eq (h : Symmetry L turn spot) (b : Border) {r c : Nat} (hr : r ≤ L + 1)
    (hc : c ≤ L + 1) :
    Solver.ringValue L (b.turned turn) r c = Solver.ringValue L b (spot r c).1 (spot r c).2 := by
  by_cases hside : ∃ d, OnSide L r c d
  · obtain ⟨d, hd⟩ := hside
    rw [ringValue_of_onSide hd, ringValue_of_onSide ((h.onSide hr hc d).2 hd), Border.turned,
      Compass.get_ofFn]
  · have hout : ∀ e, ¬ OnSide L (spot r c).1 (spot r c).2 e := by
      intro e he
      rw [← h.turn_turn e] at he
      exact hside ⟨turn e, (h.onSide hr hc (turn e)).1 he⟩
    rw [ringValue_of_not_onSide (not_exists.1 hside), ringValue_of_not_onSide hout]

/-- **The field of a turned border is the field of the border at the places mapped.** -/
theorem field_eq (h : Symmetry L turn spot) (b : Border) (n : Nat) {r c : Nat} (hr : r ≤ L + 1)
    (hc : c ≤ L + 1) :
    field L (b.turned turn) n r c = field L b n (spot r c).1 (spot r c).2 := by
  induction n generalizing r c with
  | zero => exact h.ringValue_eq b hr hc
  | succ n ih =>
    cases hin : Solver.inside L r c with
    | false =>
      rw [field_of_not_inside hin, field_of_not_inside ((h.inside hr hc).trans hin),
        h.ringValue_eq b hr hc]
    | true =>
      obtain ⟨hr', hc'⟩ := inside_iff.1 hin
      -- the neighbors of a place are mapped to the neighbors of its image
      have haround : surroundings L (b.turned turn) n r c =
          fun d => surroundings L b n (spot r c).1 (spot r c).2 (turn d) := by
        funext d
        simp only [surroundings]
        rw [h.adjacent hin d]
        apply ih <;> cases d <;> simp only [DiffusionMesh.adjacent] <;> omega
      rw [field_succ_of_inside hin, field_succ_of_inside ((h.inside hr hc).trans hin)]
      refine Temperature.next_congr ?_ _ _
      rw [haround]
      exact h.sum _

/-- The positions of two solvers that a symmetry maps to each other. -/
theorem exists_get? (h : Symmetry L turn spot) (b : Border) (n : Nat) {r c r' c' : Nat}
    (hr : r < L) (hc : c < L) (hr' : r' < L) (hc' : c' < L)
    (hspot : spot (r + 1) (c + 1) = (r' + 1, c' + 1)) : ∃ t,
      (Solver.run n (.create L (b.turned turn))).get? r c = some t ∧
      (Solver.run n (.create L b)).get? r' c' = some t := by
  refine ⟨_, Solver.get?_run L _ n hr hc, ?_⟩
  rw [Solver.get?_run L b n hr' hc', h.field_eq b n (by omega) (by omega), hspot]

end Symmetry

namespace Direction

/-- East and west change places. -/
def eastWest : Direction → Direction
  | .north => .north
  | .south => .south
  | .east => .west
  | .west => .east

/-- North and south change places. -/
def northSouth : Direction → Direction
  | .north => .south
  | .south => .north
  | .east => .east
  | .west => .west

/-- North and west change places, and so do south and east. -/
def transposed : Direction → Direction
  | .north => .west
  | .south => .east
  | .east => .south
  | .west => .north

end Direction

section

variable (L : Nat)

/-- The grid is mirrored from east to west. -/
theorem symmetry_eastWest : Symmetry L .eastWest fun r c => (r, L + 1 - c) where
  turn_turn d := by cases d <;> rfl
  inside hr hc := by
    rw [Bool.eq_iff_iff, inside_iff, inside_iff]
    omega
  onSide hr hc d := by
    cases d <;> simp only [OnSide, Direction.eastWest] <;> omega
  adjacent hin d := by
    have hc := (inside_iff.1 hin).2
    cases d <;> simp only [adjacent, Direction.eastWest, Prod.mk.injEq, true_and]
    case east => omega
    case west => omega
  sum around := by
    simp only [Temperature.sum, Direction.eastWest]
    omega

/-- The grid is mirrored from north to south. -/
theorem symmetry_northSouth : Symmetry L .northSouth fun r c => (L + 1 - r, c) where
  turn_turn d := by cases d <;> rfl
  inside hr hc := by
    rw [Bool.eq_iff_iff, inside_iff, inside_iff]
    omega
  onSide hr hc d := by
    cases d <;> simp only [OnSide, Direction.northSouth] <;> omega
  adjacent hin d := by
    have hr := (inside_iff.1 hin).1
    cases d <;> simp only [adjacent, Direction.northSouth, Prod.mk.injEq, and_true]
    case north => omega
    case south => omega
  sum around := by
    simp only [Temperature.sum, Direction.northSouth]
    omega

/-- The grid is transposed. -/
theorem symmetry_transposed : Symmetry L .transposed fun r c => (c, r) where
  turn_turn d := by cases d <;> rfl
  inside hr hc := by
    rw [Bool.eq_iff_iff, inside_iff, inside_iff]
    omega
  onSide hr hc d := by
    cases d <;> exact Iff.rfl
  adjacent hin d := by cases d <;> rfl
  sum around := by
    simp only [Temperature.sum, Direction.transposed]
    omega

end

namespace Solver

/-- **The solver treats all sides alike.** A border with east and west exchanged gives the grid
mirrored from east to west, one with north and south exchanged gives it mirrored from north to
south, and one with north and west and with south and east exchanged gives it transposed: after
every number of steps and bit by bit, also where sums wrap. -/
theorem reflections (L : Nat) (b : Border) (n : Nat) {r c : Nat} (hr : r < L) (hc : c < L) :
    (∃ t, (run n (create L { b with east := b.west, west := b.east })).get? r c = some t ∧
      (run n (create L b)).get? r (L - 1 - c) = some t) ∧
    (∃ t, (run n (create L { b with north := b.south, south := b.north })).get? r c = some t ∧
      (run n (create L b)).get? (L - 1 - r) c = some t) ∧
    (∃ t, (run n (create L
        { north := b.west, west := b.north, south := b.east, east := b.south })).get? r c = some t ∧
      (run n (create L b)).get? c r = some t) := by
  have hcolumn : L + 1 - (c + 1) = L - 1 - c + 1 := by omega
  have hrow : L + 1 - (r + 1) = L - 1 - r + 1 := by omega
  refine ⟨?eastWest, ?northSouth, ?transposed⟩
  case eastWest =>
    exact (symmetry_eastWest L).exists_get? b n hr hc hr (by omega) (by rw [hcolumn])
  case northSouth =>
    exact (symmetry_northSouth L).exists_get? b n hr hc (by omega) hc (by rw [hrow])
  case transposed => exact (symmetry_transposed L).exists_get? b n hr hc hc hr rfl

/-- A border so hot in the north and the west that the sums around the corner between them wrap. -/
theorem reflections_scorching :
    let b : Border := ⟨⟨2147483647⟩, ⟨-5⟩, ⟨1000⟩, ⟨2147483000⟩⟩
    (∃ t, (run 7 (create 4 { b with east := b.west, west := b.east })).get? 1 2 = some t ∧
      (run 7 (create 4 b)).get? 1 1 = some t) ∧
    (∃ t, (run 7 (create 4 { b with north := b.south, south := b.north })).get? 1 2 = some t ∧
      (run 7 (create 4 b)).get? 2 2 = some t) ∧
    (∃ t, (run 7 (create 4
        { north := b.west, west := b.north, south := b.east, east := b.south })).get? 1 2 = some t ∧
      (run 7 (create 4 b)).get? 2 1 = some t) :=
  reflections 4 _ 7 (by decide) (by decide)

end Solver
end DiffusionMesh

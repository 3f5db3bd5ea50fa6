/-
# How far a border reaches

A step reads no further than the four places next to a position. What stands on one side of the ring
therefore comes one row or column nearer with each step, and no faster:

```
   steps            0   1   2   3
   north side     ring
   row 0                x   x   x
   row 1                    x   x
   row 2                        x
```

Row `r` is free of the north side for the first `r` steps, and so for the other sides, with the rows
or columns between a position and that side (`depth`). Two borders that differ on some sides agree
wherever none of these has come yet, also where sums wrap. Main statements: `field_eq_of_far` and
`Solver.unreached`.
-/

import DiffusionMesh.Proofs.Tile.Field

namespace DiffusionMesh

/-- The steps from a place of a grid, counted from its ring, to a side of the ring. -/
def distance (L row column : Nat) : Direction → Nat
  | .north => row
  | .south => L + 1 - row
  | .east => L + 1 - column
  | .west => column

/-- The rows or columns between a position of a grid and a side. -/
def depth (L row column : Nat) : Direction → Nat
  | .north => row
  | .south => L - 1 - row
  | .east => L - 1 - column
  | .west => column

section

variable {L : Nat} {b b' : Border} {n r c : Nat}

/-- A position lies one step further from the ring than there are rows or columns between. -/
theorem lt_distance (hr : r < L) (hc : c < L) {d : Direction} (h : n ≤ depth L r c d) :
    n < distance L (r + 1) (c + 1) d := by
  cases d <;> simp only [depth] at h <;> simp only [distance] <;> omega

/-- The next place is at most one step nearer to any side. -/
theorem distance_le_adjacent (d e : Direction) :
    distance L r c d ≤ distance L (adjacent r c e).1 (adjacent r c e).2 d + 1 := by
  cases d <;> cases e <;> simp only [distance, adjacent] <;> omega

theorem distance_of_onSide {d : Direction} (h : OnSide L r c d) : distance L r c d = 0 := by
  cases d <;> simp only [OnSide] at h <;> simp only [distance] <;> omega

/-- The ring reads only the side that it is. -/
theorem ringValue_congr (h : ∀ d, b.get d ≠ b'.get d → 0 < distance L r c d) :
    Solver.ringValue L b r c = Solver.ringValue L b' r c := by
  rcases ringValue_cases L r c with ⟨d, hd, hside⟩ | hzero
  · rw [hside, hside]
    refine Decidable.of_not_not fun hne => ?_
    have hpos := h d hne
    rw [distance_of_onSide hd] at hpos
    omega
  · rw [hzero, hzero]

/-- **Out of reach of the sides on which they differ, two borders give one field.** -/
theorem field_eq_of_far (h : ∀ d, b.get d ≠ b'.get d → n < distance L r c d) :
    field L b n r c = field L b' n r c := by
  induction n generalizing r c with
  | zero => exact ringValue_congr h
  | succ n ih =>
    cases hin : Solver.inside L r c with
    | false =>
      rw [field_of_not_inside hin, field_of_not_inside hin]
      exact ringValue_congr fun d hd => Nat.zero_lt_of_lt (h d hd)
    | true =>
      -- the places around are at most one step nearer, and there is one step less to go
      have haround : ∀ e, surroundings L b n r c e = surroundings L b' n r c e := by
        intro e
        refine ih fun d hd => ?_
        have hlt := h d hd
        have hle := distance_le_adjacent (L := L) (r := r) (c := c) d e
        omega
      rw [field_succ_of_inside hin, field_succ_of_inside hin, nextTemperature_eq,
        nextTemperature_eq, haround, haround, haround, haround]

/-- Without a border that differs from zero nothing ever does. -/
theorem field_const_zero (n r c : Nat) : field L (.const .zero) n r c = .zero := by
  have hring : ∀ r c, Solver.ringValue L (.const .zero) r c = .zero := by
    intro r c
    rcases ringValue_cases L r c with ⟨d, -, hside⟩ | hzero
    · rw [hside, Compass.get_const]
    · exact hzero _
  induction n generalizing r c with
  | zero => exact hring r c
  | succ n ih =>
    cases hin : Solver.inside L r c with
    | false => rw [field_of_not_inside hin, hring]
    | true =>
      rw [field_succ_of_inside hin, nextTemperature_eq]
      simp only [surroundings, ih]
      rfl

end

namespace Solver

/-- **A border reaches one position further with each step.** Two grids agree bit by bit, after `n`
steps, at every position with at least `n` rows or columns to each side on which their borders
differ. With that much room on all sides a position is still zero. -/
theorem unreached (L : Nat) (b b' : Border) (n : Nat) {r c : Nat} (hr : r < L) (hc : c < L) :
    ((∀ d, b.get d ≠ b'.get d → n ≤ depth L r c d) → ∃ t,
      (run n (create L b)).get? r c = some t ∧ (run n (create L b')).get? r c = some t) ∧
    ((∀ d, n ≤ depth L r c d) → (run n (create L b)).get? r c = some .zero) := by
  constructor
  · intro h
    refine ⟨_, get?_run L b n hr hc, ?_⟩
    rw [get?_run L b' n hr hc, field_eq_of_far fun d hd => lt_distance hr hc (h d hd)]
  · intro h
    rw [get?_run L b n hr hc, field_eq_of_far fun d _ => lt_distance hr hc (h d),
      field_const_zero]

/-- Three rows lie south of row 4 of eight, so for three steps the south side does not matter there,
however cold it is; and the fourth position of the diagonal is still zero. -/
theorem unreached_eight :
    let b' : Border := { Border.standard with south := ⟨-2147483648⟩ }
    (∃ t, (run 3 (create 8 .standard)).get? 4 0 = some t ∧
      (run 3 (create 8 b')).get? 4 0 = some t) ∧
    (run 3 (create 8 .standard)).get? 3 3 = some .zero := by
  intro b'
  have hroom : ∀ d, Border.standard.get d ≠ b'.get d → 3 ≤ depth 8 4 0 d := by
    intro d
    cases d <;> decide
  have hinner : ∀ d, 3 ≤ depth 8 3 3 d := by
    intro d
    cases d <;> decide
  exact ⟨(unreached 8 .standard b' 3 (by decide) (by decide)).1 hroom,
    (unreached 8 .standard b' 3 (by decide) (by decide)).2 hinner⟩

end Solver
end DiffusionMesh

/-
# The whole grid over time

`field L b n r c` is the temperature after `n` steps at row `r` and column `c` of a grid of side
`L`, counted from the ring around it. The sequential solver holds this field, and so do the tiles of
a mesh together: a step on a tile gives the next field as long as its incoming edges hold the field
just outside the tile.

```
        row r₀     ┌ incoming north ┐
   r₀ + 1 … r₀ + S │  rows of tile  │
   row r₀ + S + 1  └ incoming south ┘
```

Main statements: `Solver.get?_run`, the solver holds the field, and `update_eq`, the step on a tile.
-/

import DiffusionMesh.Solver

namespace DiffusionMesh

/-- The temperature after `n` steps at a row and a column of a grid, counted from its ring. -/
def field (L : Nat) (b : Border) : (n row column : Nat) → Temperature
  | 0, r, c => Solver.ringValue L b r c
  | n + 1, r, c =>
    if Solver.inside L r c then
      nextTemperature (field L b n r c) (field L b n (r - 1) c) (field L b n (r + 1) c)
        (field L b n r (c + 1)) (field L b n r (c - 1))
    else Solver.ringValue L b r c

/-- The row and column next to a place. -/
def adjacent (row column : Nat) : Direction → Nat × Nat
  | .north => (row - 1, column)
  | .south => (row + 1, column)
  | .east => (row, column + 1)
  | .west => (row, column - 1)

/-- The temperatures around a place of the grid. -/
def surroundings (L : Nat) (b : Border) (n row column : Nat) (d : Direction) : Temperature :=
  field L b n (adjacent row column d).1 (adjacent row column d).2

/-- A place of the ring that belongs to a side. The corners belong to none. -/
def OnSide (L row column : Nat) : Direction → Prop
  | .north => row = 0 ∧ 1 ≤ column ∧ column ≤ L
  | .south => row = L + 1 ∧ 1 ≤ column ∧ column ≤ L
  | .east => column = L + 1 ∧ 1 ≤ row ∧ row ≤ L
  | .west => column = 0 ∧ 1 ≤ row ∧ row ≤ L

section

variable {L : Nat} {b : Border} {n r c : Nat}

theorem inside_iff : Solver.inside L r c = true ↔ (1 ≤ r ∧ r ≤ L) ∧ 1 ≤ c ∧ c ≤ L := by
  simp only [Solver.inside, Bool.and_eq_true, decide_eq_true_eq]
  omega

/-- The ring does not change. -/
theorem field_of_not_inside (h : Solver.inside L r c = false) :
    field L b n r c = Solver.ringValue L b r c := by
  cases n with
  | zero => rfl
  | succ n => rw [field, h, if_neg Bool.false_ne_true]

theorem field_succ_of_inside (h : Solver.inside L r c = true) : field L b (n + 1) r c =
    nextTemperature (field L b n r c) (surroundings L b n r c .north)
      (surroundings L b n r c .south) (surroundings L b n r c .east)
      (surroundings L b n r c .west) := by
  rw [field, if_pos h]
  rfl

/-- The four sides of the ring. -/
theorem ringValue_sides (b : Border) {k : Nat} (h : 1 ≤ k ∧ k ≤ L) :
    Solver.ringValue L b 0 k = b.get .north ∧ Solver.ringValue L b (L + 1) k = b.get .south ∧
      Solver.ringValue L b k (L + 1) = b.get .east ∧ Solver.ringValue L b k 0 = b.get .west := by
  have hin : (decide (1 ≤ k) && decide (k ≤ L)) = true := by
    simp only [Bool.and_eq_true, decide_eq_true_eq]
    exact h
  have heast : ¬ (decide (1 ≤ L + 1) && decide (L + 1 ≤ L)) = true := by
    simp only [Bool.and_eq_true, decide_eq_true_eq]
    omega
  refine ⟨?_, ?_, ?_, ?_⟩
  · rw [Solver.ringValue, if_pos hin, if_pos rfl]
    rfl
  · rw [Solver.ringValue, if_pos hin, if_neg (Nat.succ_ne_zero L), if_pos rfl]
    rfl
  · rw [Solver.ringValue, if_neg heast, if_pos hin, if_neg (Nat.succ_ne_zero L), if_pos rfl]
    rfl
  · rw [Solver.ringValue, if_neg (by exact Bool.false_ne_true), if_pos hin, if_pos rfl]
    rfl

theorem ringValue_of_onSide {d : Direction} (h : OnSide L r c d) :
    Solver.ringValue L b r c = b.get d := by
  cases d with
  | north =>
    obtain ⟨rfl, hc⟩ := h
    exact (ringValue_sides b hc).1
  | south =>
    obtain ⟨rfl, hc⟩ := h
    exact (ringValue_sides b hc).2.1
  | east =>
    obtain ⟨rfl, hr⟩ := h
    exact (ringValue_sides b hr).2.2.1
  | west =>
    obtain ⟨rfl, hr⟩ := h
    exact (ringValue_sides b hr).2.2.2

theorem ringValue_of_not_onSide (h : ∀ d, ¬ OnSide L r c d) :
    Solver.ringValue L b r c = .zero := by
  have hnorth : ¬ OnSide L r c .north := h .north
  have hsouth : ¬ OnSide L r c .south := h .south
  have heast : ¬ OnSide L r c .east := h .east
  have hwest : ¬ OnSide L r c .west := h .west
  simp only [OnSide] at hnorth hsouth heast hwest
  simp only [Solver.ringValue, Bool.and_eq_true, decide_eq_true_eq]
  repeat' split
  any_goals rfl
  all_goals omega

/-- **The ring holds the border**, and nothing else: a place belongs to a side or is zero. -/
theorem ringValue_cases (L r c : Nat) :
    (∃ d, OnSide L r c d ∧ ∀ b, Solver.ringValue L b r c = b.get d) ∨
      ∀ b, Solver.ringValue L b r c = .zero := by
  by_cases h : ∃ d, OnSide L r c d
  · obtain ⟨d, hd⟩ := h
    exact .inl ⟨d, hd, fun _ => ringValue_of_onSide hd⟩
  · exact .inr fun _ => ringValue_of_not_onSide (not_exists.1 h)

/-- The grid is zero at first. -/
theorem field_zero_of_inside (h : Solver.inside L r c = true) : field L b 0 r c = .zero := by
  have hin := inside_iff.1 h
  refine ringValue_of_not_onSide fun d => ?_
  cases d <;> simp only [OnSide] <;> omega

end

/-! ### The solver holds the field -/

/-- A solver that holds the field after `n` steps. -/
structure Solver.Holds (s : Solver) (L : Nat) (b : Border) (n : Nat) : Prop where
  side : s.side = L
  size_current : s.current.size = (L + 2) * (L + 2)
  size_next : s.next.size = (L + 2) * (L + 2)
  current : ∀ {r c}, r < L + 2 → c < L + 2 → s.place (r * (L + 2) + c) = field L b n r c
  /-- The ring of the grid under construction. -/
  next : ∀ {r c}, r < L + 2 → c < L + 2 → inside L r c = false →
    s.next.getD (r * (L + 2) + c) .zero = ringValue L b r c

namespace Solver

variable {s : Solver} {L : Nat} {b : Border} {n : Nat}

theorem div_row {w r c : Nat} (hc : c < w) : (r * w + c) / w = r := by
  rw [Nat.mul_comm, Nat.mul_add_div (Nat.zero_lt_of_lt hc), Nat.div_eq_of_lt hc, Nat.add_zero]

theorem mod_row {w r c : Nat} (hc : c < w) : (r * w + c) % w = c := by
  rw [Nat.mul_add_mod', Nat.mod_eq_of_lt hc]

/-- The place of a flat index. -/
theorem exists_place {w i : Nat} (hi : i < w * w) : ∃ r c, r < w ∧ c < w ∧ i = r * w + c := by
  have hpos : 0 < w := Nat.pos_of_mul_pos_left (Nat.zero_lt_of_lt hi)
  exact ⟨i / w, i % w, Nat.div_lt_of_lt_mul hi, Nat.mod_lt _ hpos, (Nat.div_add_mod' i w).symm⟩

theorem getElem?_eq_getD {grid : Array Temperature} {k : Nat} (hk : k < grid.size) :
    grid[k]? = some (grid.getD k .zero) := by
  simp [hk]

theorem getElem?_eq_place {k : Nat} (hk : k < s.current.size) :
    s.current[k]? = some (s.place k) :=
  getElem?_eq_getD hk

theorem holds_create (L : Nat) (b : Border) : (create L b).Holds L b 0 := by
  have hgrid : ∀ {r c}, r < L + 2 → c < L + 2 →
      (Array.ofFn fun k : Fin ((L + 2) * (L + 2)) =>
        ringValue L b (k.val / (L + 2)) (k.val % (L + 2))).getD (r * (L + 2) + c) .zero =
          ringValue L b r c := by
    intro r c hr hc
    rw [Array.getD_eq_getD_getElem?, Array.getElem?_ofFn, dif_pos (Tile.index_lt hr hc),
      Option.getD_some, div_row hc, mod_row hc]
  exact ⟨rfl, Array.size_ofFn, Array.size_ofFn, hgrid, fun hr hc _ => hgrid hr hc⟩

/-- The temperature next to a flat index. -/
def neighbor (s : Solver) (k : Nat) : Direction → Temperature
  | .north => s.place (k - s.width)
  | .south => s.place (k + s.width)
  | .east => s.place (k + 1)
  | .west => s.place (k - 1)

/-- The temperatures around a place inside the ring. -/
theorem Holds.neighbor_eq (h : s.Holds L b n) {r c : Nat} (hin : inside L r c = true)
    (d : Direction) : s.neighbor (r * (L + 2) + c) d = surroundings L b n r c d := by
  obtain ⟨⟨hr, hr'⟩, hc, hc'⟩ := inside_iff.1 hin
  have hwidth : s.width = L + 2 := by rw [width, h.side]
  have hrow : (r + 1) * (L + 2) = r * (L + 2) + (L + 2) := Nat.succ_mul r _
  have hrow' : r * (L + 2) = (r - 1) * (L + 2) + (L + 2) := by
    rw [← Nat.succ_mul, Nat.succ_eq_add_one, Nat.sub_add_cancel hr]
  cases d with
  | north =>
    rw [neighbor, hwidth, show r * (L + 2) + c - (L + 2) = (r - 1) * (L + 2) + c by omega]
    exact h.current (by omega) (by omega)
  | south =>
    rw [neighbor, hwidth, show r * (L + 2) + c + (L + 2) = (r + 1) * (L + 2) + c by omega]
    exact h.current (by omega) (by omega)
  | east =>
    rw [neighbor, Nat.add_assoc]
    exact h.current (by omega) (by omega)
  | west =>
    rw [neighbor, show r * (L + 2) + c - 1 = r * (L + 2) + (c - 1) by omega]
    exact h.current (by omega) (by omega)

/-- The next temperature inside the ring. -/
theorem Holds.nextAt_eq (h : s.Holds L b n) {r c : Nat} (hin : inside L r c = true) :
    s.nextAt (r * (L + 2) + c) = field L b (n + 1) r c := by
  have hplace := h.current (r := r) (c := c) (by have := inside_iff.1 hin; omega)
    (by have := inside_iff.1 hin; omega)
  rw [field_succ_of_inside hin, ← hplace, ← h.neighbor_eq hin, ← h.neighbor_eq hin,
    ← h.neighbor_eq hin, ← h.neighbor_eq hin]
  rfl

/-- **A step of the solver is a step of the field.** -/
theorem Holds.step (h : s.Holds L b n) : s.step.Holds L b (n + 1) := by
  have hwidth : s.width = L + 2 := by rw [width, h.side]
  have hat : ∀ {r c}, r < L + 2 → c < L + 2 → s.step.place (r * (L + 2) + c) =
      if inside L r c then s.nextAt (r * (L + 2) + c)
      else s.next.getD (r * (L + 2) + c) .zero := by
    intro r c hr hc
    have hk : r * (L + 2) + c < s.next.size := h.size_next ▸ Tile.index_lt hr hc
    rw [place, Solver.step, Array.getD_eq_getD_getElem?, Array.getElem?_mapIdx,
      Array.getElem?_eq_getElem hk, Option.map_some, Option.getD_some, hwidth, h.side, div_row hc,
      mod_row hc, Array.getD_eq_getD_getElem?, Array.getElem?_eq_getElem hk, Option.getD_some]
  refine ⟨h.side, ?_, h.size_current, fun {r c} hr hc => ?_, fun {r c} hr hc hout => ?_⟩
  · rw [Solver.step, Array.size_mapIdx, h.size_next]
  · rw [hat hr hc]
    cases hin : inside L r c with
    | true => rw [if_pos rfl, h.nextAt_eq hin]
    | false => rw [if_neg Bool.false_ne_true, h.next hr hc hin, field_of_not_inside hin]
  · exact (h.current hr hc).trans (field_of_not_inside hout)

theorem Holds.run (h : s.Holds L b n) (m : Nat) : (run m s).Holds L b (n + m) := by
  induction m generalizing s n with
  | zero => exact h
  | succ m ih =>
    have hrest := ih h.step
    rwa [Nat.add_assoc, Nat.add_comm 1 m] at hrest

/-- **The solver holds the field.** -/
theorem get?_run (L : Nat) (b : Border) (n : Nat) {i j : Nat} (hi : i < L) (hj : j < L) :
    (run n (create L b)).get? i j = some (field L b n (i + 1) (j + 1)) := by
  have h := (holds_create L b).run n
  rw [Nat.zero_add] at h
  have hk : (i + 1) * (L + 2) + (j + 1) < (run n (create L b)).current.size :=
    h.size_current ▸ Tile.index_lt (by omega) (by omega)
  rw [get?, width, h.side, Nat.add_assoc, getElem?_eq_place hk, h.current (by omega) (by omega)]

theorem value_run (L : Nat) (b : Border) (n : Nat) {i j : Nat} (hi : i < L) (hj : j < L) :
    (run n (create L b)).value i j = field L b n (i + 1) (j + 1) := by
  have hget := get?_run L b n hi hj
  rw [get?] at hget
  rw [value, place, Array.getD_eq_getD_getElem?, hget, Option.getD_some]

theorem side_run (L : Nat) (b : Border) (n : Nat) : (run n (create L b)).side = L :=
  ((holds_create L b).run n).side

end Solver

/-! ### Tiles of the field -/

/-- The part of the field in a tile of size `S`, whose first position is at row `r₀ + 1` and column
`c₀ + 1`. -/
def fieldTile (S L : Nat) (b : Border) (n r₀ c₀ : Nat) : Tile :=
  .ofFn S fun i j => field L b n (r₀ + i + 1) (c₀ + j + 1)

/-- The row and column of a position just outside a tile. -/
def beyond (S r₀ c₀ p : Nat) : Direction → Nat × Nat
  | .north => (r₀, c₀ + p + 1)
  | .south => (r₀ + S + 1, c₀ + p + 1)
  | .east => (r₀ + p + 1, c₀ + S + 1)
  | .west => (r₀ + p + 1, c₀)

/-- The row and column of a position on the border of a tile. -/
def brink (S r₀ c₀ p : Nat) : Direction → Nat × Nat
  | .north => (r₀ + 1, c₀ + p + 1)
  | .south => (r₀ + S, c₀ + p + 1)
  | .east => (r₀ + p + 1, c₀ + S)
  | .west => (r₀ + p + 1, c₀ + 1)

theorem Tile.ofFn_congr {S : Nat} {f f' : Nat → Nat → Temperature}
    (h : ∀ i j, i < S → j < S → f i j = f' i j) : ofFn S f = ofFn S f' := by
  have hfn : (fun k : Fin (S * S) => f (k.val / S) (k.val % S)) =
      fun k : Fin (S * S) => f' (k.val / S) (k.val % S) := by
    funext k
    have hpos : 0 < S := Nat.pos_of_mul_pos_left (Nat.zero_lt_of_lt k.isLt)
    exact h _ _ (Nat.div_lt_of_lt_mul k.isLt) (Nat.mod_lt _ hpos)
  simp only [ofFn, hfn]

/-- There is one tile without positions. -/
theorem Tile.eq_of_size_eq_zero {t t' : Tile} (h : t.size = 0) (h' : t'.size = 0) : t = t' := by
  obtain ⟨size, cells, hcells⟩ := t
  obtain ⟨size', cells', hcells'⟩ := t'
  obtain rfl : size = 0 := h
  obtain rfl : size' = 0 := h'
  obtain rfl := Array.eq_empty_of_size_eq_zero hcells
  obtain rfl := Array.eq_empty_of_size_eq_zero hcells'
  rfl

section

variable {S L : Nat} {b : Border} {n r₀ c₀ : Nat}

theorem size_fieldTile : (fieldTile S L b n r₀ c₀).size = S := rfl

theorem value_fieldTile {i j : Nat} (hi : i < S) (hj : j < S) :
    (fieldTile S L b n r₀ c₀).value i j = field L b n (r₀ + i + 1) (c₀ + j + 1) :=
  Tile.value_ofFn _ hi hj

theorem Edge.value_ofFn {N p : Nat} (f : Nat → Temperature) (hp : p < N) :
    Edge.value (Array.ofFn fun k : Fin N => f k.val) p = f p := by
  rw [Edge.value, Array.getD_eq_getD_getElem?, Array.getElem?_ofFn, dif_pos hp, Option.getD_some]

theorem size_borderOf (t : Tile) (d : Direction) : (LocalState.borderOf t d).size = t.size := by
  cases d <;> exact Array.size_ofFn

/-- The borders of a tile of the field. -/
theorem value_borderOf {p : Nat} (hp : p < S) (d : Direction) :
    Edge.value (LocalState.borderOf (fieldTile S L b n r₀ c₀) d) p =
      field L b n (brink S r₀ c₀ p d).1 (brink S r₀ c₀ p d).2 := by
  have hlast : S - 1 + 1 = S := by omega
  cases d with
  | north =>
    exact (Edge.value_ofFn (fun k => (fieldTile S L b n r₀ c₀).value 0 k) hp).trans
      (value_fieldTile (by omega) hp)
  | south =>
    refine (Edge.value_ofFn (fun k => (fieldTile S L b n r₀ c₀).value (S - 1) k) hp).trans ?_
    rw [value_fieldTile (by omega) hp, Nat.add_assoc r₀, hlast]
    rfl
  | east =>
    refine (Edge.value_ofFn (fun k => (fieldTile S L b n r₀ c₀).value k (S - 1)) hp).trans ?_
    rw [value_fieldTile hp (by omega), Nat.add_assoc c₀, hlast]
    rfl
  | west =>
    exact (Edge.value_ofFn (fun k => (fieldTile S L b n r₀ c₀).value k 0) hp).trans
      (value_fieldTile hp (by omega))

/-- The incoming edges of a tile hold the field just outside it. -/
def Abuts (S L : Nat) (b : Border) (n r₀ c₀ : Nat) (incoming : Compass Edge) : Prop :=
  ∀ d p, p < S → Edge.value (incoming.get d) p =
    field L b n (beyond S r₀ c₀ p d).1 (beyond S r₀ c₀ p d).2

variable {s : LocalState}

/-- The temperatures around a position of a tile are those of the field. -/
theorem neighbor_eq_field (hcurrent : s.current = fieldTile S L b n r₀ c₀)
    (hincoming : Abuts S L b n r₀ c₀ s.incoming) {i j : Nat} (hi : i < S) (hj : j < S)
    (d : Direction) :
    s.neighbor i j d = surroundings L b n (r₀ + i + 1) (c₀ + j + 1) d := by
  have hsize : s.size = S := by rw [LocalState.size, hcurrent, size_fieldTile]
  have hvalue : ∀ {i' j'}, i' < S → j' < S →
      s.current.value i' j' = field L b n (r₀ + i' + 1) (c₀ + j' + 1) := fun hi' hj' => by
    rw [hcurrent, value_fieldTile hi' hj']
  simp only [surroundings, adjacent]
  cases d with
  | north =>
    rw [LocalState.neighbor]
    split
    · next h0 =>
      rw [h0]
      exact hincoming .north j hj
    · rw [hvalue (by omega) hj, show r₀ + (i - 1) + 1 = r₀ + i + 1 - 1 by omega]
  | south =>
    rw [LocalState.neighbor, hsize]
    split
    · next hlast =>
      rw [show r₀ + i + 1 + 1 = r₀ + S + 1 by omega]
      exact hincoming .south j hj
    · rw [hvalue (by omega) hj, ← Nat.add_assoc]
  | east =>
    rw [LocalState.neighbor, hsize]
    split
    · next hlast =>
      rw [show c₀ + j + 1 + 1 = c₀ + S + 1 by omega]
      exact hincoming .east i hi
    · rw [hvalue hi (by omega), ← Nat.add_assoc]
  | west =>
    rw [LocalState.neighbor]
    split
    · next h0 =>
      rw [h0]
      exact hincoming .west i hi
    · rw [hvalue hi (by omega), show c₀ + (j - 1) + 1 = c₀ + j + 1 - 1 by omega]

/-- **The next temperatures of a tile are those of the field.** -/
theorem nextAt_eq_field (hcurrent : s.current = fieldTile S L b n r₀ c₀)
    (hincoming : Abuts S L b n r₀ c₀ s.incoming) (hr : r₀ + S ≤ L) (hc : c₀ + S ≤ L) {i j : Nat}
    (hi : i < S) (hj : j < S) : s.nextAt i j = field L b (n + 1) (r₀ + i + 1) (c₀ + j + 1) := by
  have hvalue : s.current.value i j = field L b n (r₀ + i + 1) (c₀ + j + 1) := by
    rw [hcurrent, value_fieldTile hi hj]
  have hneighbor := neighbor_eq_field hcurrent hincoming hi hj
  rw [LocalState.nextAt, hvalue, hneighbor, hneighbor, hneighbor, hneighbor,
    field_succ_of_inside (inside_iff.2 (by omega))]

/-- **A step on a tile gives the next part of the field**, and stages its borders. -/
theorem update_eq (hcurrent : s.current = fieldTile S L b n r₀ c₀)
    (hincoming : Abuts S L b n r₀ c₀ s.incoming) (hr : r₀ + S ≤ L) (hc : c₀ + S ≤ L)
    (hnext : s.next.size = S) (hout : ∀ d, (s.outgoing.get d).size = S) :
    s.update = { s with
      next := fieldTile S L b (n + 1) r₀ c₀
      outgoing := .ofFn (LocalState.borderOf (fieldTile S L b (n + 1) r₀ c₀)) } := by
  have hsize : s.size = S := by rw [LocalState.size, hcurrent, size_fieldTile]
  rw [LocalState.update, hsize]
  by_cases hzero : S = 0
  · -- nothing is computed, and there is nothing to compute
    have htile : s.next = fieldTile S L b (n + 1) r₀ c₀ :=
      Tile.eq_of_size_eq_zero (hnext.trans hzero) (size_fieldTile.trans hzero)
    have hedges : s.outgoing = .ofFn (LocalState.borderOf (fieldTile S L b (n + 1) r₀ c₀)) := by
      refine Compass.ext_get fun d => ?_
      rw [Compass.get_ofFn, Array.eq_empty_of_size_eq_zero ((hout d).trans hzero),
        Array.eq_empty_of_size_eq_zero ((size_borderOf _ d).trans (size_fieldTile.trans hzero))]
    rw [if_pos hzero, ← hedges, ← htile]
  · have htile : Tile.ofFn S s.nextAt = fieldTile S L b (n + 1) r₀ c₀ :=
      Tile.ofFn_congr fun i j hi hj => nextAt_eq_field hcurrent hincoming hr hc hi hj
    rw [if_neg hzero, htile]

end
end DiffusionMesh

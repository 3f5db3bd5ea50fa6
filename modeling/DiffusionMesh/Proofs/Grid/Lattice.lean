/-
# The mesh as a lattice

The cell with number `y · L + x` of a mesh of side `L` stands at column `x` and row `y`. Its
neighbors stand one step away:

| direction | column | row |
| --- | --- | --- |
| north | `x` | `y - 1` |
| south | `x` | `y + 1` |
| east | `x + 1` | `y` |
| west | `x - 1` | `y` |

Main statements: `neighbors_eq`, the neighbors that the bits of a number give are these;
`sum_degree`, how many there are in all; and `le_add_distance`, a quantity that differs by one at
most between neighbors differs by no more than the distance between any two cells.
-/

import DiffusionMesh.Grid.Geometry
import DiffusionMesh.Tile.Basic
import Mathlib.Algebra.BigOperators.Ring.List
import Mathlib.Algebra.Ring.Nat
import Mathlib.Tactic.Ring

namespace DiffusionMesh

/-! ### Steps in a square -/

/-- The column and row one step away in a square of side `L`, unless the step leaves it. -/
def around (L x y : Nat) : Direction → Option (Nat × Nat)
  | .north => if 0 < y then some (x, y - 1) else none
  | .south => if y + 1 < L then some (x, y + 1) else none
  | .east => if x + 1 < L then some (x + 1, y) else none
  | .west => if 0 < x then some (x - 1, y) else none

section

variable {L x y x' y' : Nat} {d : Direction}

theorem around_lt (hx : x < L) (hy : y < L) (h : around L x y d = some (x', y')) :
    x' < L ∧ y' < L := by
  cases d <;> simp only [around] at h <;> split at h <;> cases h <;> constructor <;> omega

/-- A step is taken back by one in the opposite direction. -/
theorem around_symm (hx : x < L) (hy : y < L) (h : around L x y d = some (x', y')) :
    around L x' y' d.opposite = some (x, y) := by
  cases d <;> simp only [around] at h <;> split at h <;> cases h <;>
    simp only [around, Direction.opposite]
  · rw [if_pos (by omega), show y - 1 + 1 = y by omega]
  · rw [if_pos (by omega), Nat.add_sub_cancel]
  · rw [if_pos (by omega), Nat.add_sub_cancel]
  · rw [if_pos (by omega), show x - 1 + 1 = x by omega]

theorem around_ne (h : around L x y d = some (x', y')) : ¬ (x' = x ∧ y' = y) := by
  cases d <;> simp only [around] at h <;> split at h <;> cases h <;> omega

/-- From any place some step leads closer to any other. -/
theorem exists_around (hx : x < L) (hy : y < L) (hx' : x' < L) (hy' : y' < L)
    (hne : ¬ (x = x' ∧ y = y')) : ∃ d u v, around L x y d = some (u, v) ∧
      ((u : Int) - x').natAbs + ((v : Int) - y').natAbs + 1 =
        ((x : Int) - x').natAbs + ((y : Int) - y').natAbs := by
  rcases Nat.lt_trichotomy x x' with h | rfl | h
  · exact ⟨.east, x + 1, y, if_pos (by omega), by omega⟩
  · rcases Nat.lt_trichotomy y y' with h | rfl | h
    · exact ⟨.south, x, y + 1, if_pos (by omega), by omega⟩
    · exact absurd ⟨rfl, rfl⟩ hne
    · exact ⟨.north, x, y - 1, if_pos (by omega), by omega⟩
  · exact ⟨.west, x - 1, y, if_pos (by omega), by omega⟩

end

/-! ### Sums over a square -/

/-- A sum over numbers is one over their quotients and remainders. -/
theorem sum_range_mul (m n : Nat) (f : Nat → Nat) : ((List.range (m * n)).map f).sum =
    ((List.range m).map fun y => ((List.range n).map fun x => f (y * n + x)).sum).sum := by
  induction m with
  | zero => simp
  | succ m ih =>
    rw [Nat.succ_mul, List.range_add, List.map_append, List.sum_append, ih, List.range_succ,
      List.map_append, List.sum_append, List.map_map]
    rfl

/-- In a row of `n` all but the first have a neighbor before them, and all but the last one behind. -/
theorem sum_beside (n : Nat) : ((List.range n).map fun x =>
    (if 0 < x then 1 else 0) + if x + 1 < n then 1 else 0).sum = 2 * (n - 1) := by
  cases n with
  | zero => rfl
  | succ n =>
    have hbefore : ((List.range (n + 1)).map fun x => if 0 < x then 1 else 0).sum = n := by
      have hall : (List.range n).map ((fun x => if 0 < x then 1 else 0) ∘ Nat.succ) =
          (List.range n).map fun _ => 1 := List.map_congr_left fun x _ =>
        if_pos (c := 0 < x.succ) (e := 0) (Nat.succ_pos x)
      rw [List.range_succ_eq_map, List.map_cons, List.sum_cons, List.map_map, hall]
      simp
    have hbehind : ((List.range (n + 1)).map fun x => if x + 1 < n + 1 then 1 else 0).sum = n := by
      have hall : (List.range n).map (fun x => if x + 1 < n + 1 then 1 else 0) =
          (List.range n).map fun _ => 1 := List.map_congr_left fun x hx =>
        if_pos (Nat.succ_lt_succ (List.mem_range.1 hx))
      rw [List.range_succ, List.map_append, List.sum_append, hall]
      simp
    rw [List.sum_map_add, hbefore, hbehind]
    omega

namespace Geometry

/-! ### Which numbers of cells make a mesh -/

theorem ofCells_eq_ok {cells : UInt32} {g : Geometry} (h : ofCells cells = .ok g) :
    g.cells = cells := by
  unfold ofCells at h
  split at h
  · next found hfound =>
    obtain rfl := Except.ok.inj h
    simp only [ofCells?] at hfound
    split at hfound
    · rw [← Option.some.inj hfound]
    · cases hfound
  · cases h

/-- The powers of four make a mesh. -/
theorem exists_ofCells_iff {cells : UInt32} :
    (∃ g, ofCells cells = .ok g) ↔ ∃ k : Nat, cells.toNat = 4 ^ k := by
  constructor
  · rintro ⟨g, h⟩
    exact ⟨g.logSide.toNat, by rw [← ofCells_eq_ok h, g.cells_eq]; rfl⟩
  · intro h
    cases hfound : ofCells? cells with
    | none => exact absurd h (ofCells?_eq_none_iff.1 hfound)
    | some g => exact ⟨g, by rw [ofCells, hfound]⟩

theorem ofCells_eq_error {cells : UInt32} (h : ¬ ∃ k : Nat, cells.toNat = 4 ^ k) :
    ofCells cells = .error (.invalidCellCount cells) := by
  rw [ofCells, ofCells?_eq_none_iff.2 h]

variable (g : Geometry)

/-! ### Numbers and places -/

/-- The number of cells in a row. -/
def span : Nat := 2 ^ g.logSide.toNat

theorem span_pos : 0 < g.span := Nat.two_pow_pos _

theorem cells_toNat : g.cells.toNat = g.span * g.span := by
  rw [g.cells_eq, fourPow_eq, span, ← Nat.pow_add, ← Nat.two_mul]
  rfl

theorem logSide_lt : g.logSide.toNat < 16 := by
  have hlt : Nat.pow 2 (2 * g.logSide.toNat) < Nat.pow 2 32 := by
    rw [← fourPow_eq, ← g.cells_eq]
    exact g.cells.toNat_lt
  have := (Nat.pow_lt_pow_iff_right (by decide : 1 < 2)).1 hlt
  omega

theorem span_le : g.span ≤ 32768 :=
  Nat.pow_le_pow_right (by decide : 0 < 2) (Nat.le_of_lt_succ g.logSide_lt)

theorem side_toNat : g.side.toNat = g.span := by
  have hlog := g.logSide_lt
  have hspan := g.span_le
  rw [side, UInt32.toNat_shiftLeft, Nat.mod_eq_of_lt (by omega : g.logSide.toNat < 32),
    UInt32.toNat_one, Nat.one_shiftLeft, ← span, Nat.mod_eq_of_lt (by omega)]

/-- The column of a cell. -/
def column (k : Nat) : Nat := k % g.span

/-- The row of a cell. -/
def row (k : Nat) : Nat := k / g.span

/-- The cell at a column and a row. -/
def cellNumber (x y : Nat) : Nat := y * g.span + x

theorem column_lt (k : Nat) : g.column k < g.span := Nat.mod_lt _ g.span_pos

theorem row_lt {k : Nat} (h : k < g.cells.toNat) : g.row k < g.span := by
  rw [cells_toNat] at h
  exact Nat.div_lt_of_lt_mul h

/-- Tiles of side `S` end within the grid. -/
theorem mul_add_le {g : Geometry} (S : Nat) {n : Nat} (h : n < g.span) :
    n * S + S ≤ g.span * S := by
  rw [← Nat.succ_mul]
  exact Nat.mul_le_mul_right S h

theorem column_mul_le (g : Geometry) (S k : Nat) : g.column k * S + S ≤ g.span * S :=
  mul_add_le S (g.column_lt k)

theorem row_mul_le {g : Geometry} (S : Nat) {k : Nat} (h : k < g.cells.toNat) :
    g.row k * S + S ≤ g.span * S :=
  mul_add_le S (g.row_lt h)

theorem cellNumber_column_row (k : Nat) : g.cellNumber (g.column k) (g.row k) = k :=
  Nat.div_add_mod' k g.span

variable {g} {x y : Nat}

theorem column_cellNumber (hx : x < g.span) : g.column (g.cellNumber x y) = x := by
  rw [column, cellNumber, Nat.mul_add_mod', Nat.mod_eq_of_lt hx]

theorem row_cellNumber (hx : x < g.span) : g.row (g.cellNumber x y) = y := by
  rw [row, cellNumber, Nat.mul_comm, Nat.mul_add_div g.span_pos, Nat.div_eq_of_lt hx, Nat.add_zero]

theorem cellNumber_lt (hx : x < g.span) (hy : y < g.span) :
    g.cellNumber x y < g.cells.toNat := by
  rw [cells_toNat, cellNumber]
  exact Tile.index_lt hy hx

theorem toNat_number {k : Nat} (h : k < g.cells.toNat) : (UInt32.ofNat k).toNat = k :=
  UInt32.toNat_ofNat_of_lt' (Nat.lt_trans h g.cells.toNat_lt)

theorem toNat_coordinate {n : Nat} (h : n < g.span) : (UInt32.ofNat n).toNat = n :=
  UInt32.toNat_ofNat_of_lt' (Nat.lt_of_lt_of_le h (Nat.le_trans g.span_le (by decide)))

theorem one_le_side (g : Geometry) : (1 : UInt32) ≤ g.side := by
  rw [UInt32.le_iff_toNat_le, side_toNat]
  exact g.span_pos

/-- **The bits of a number give its column and row.** -/
theorem position_eq {k : Nat} (h : k < g.cells.toNat) : g.position ⟨UInt32.ofNat k⟩ =
    .ok ⟨UInt32.ofNat (g.column k), UInt32.ofNat (g.row k)⟩ := by
  have hx : UInt32.ofNat k &&& (g.side - 1) = UInt32.ofNat (g.column k) := by
    rw [← UInt32.toNat_inj, UInt32.toNat_and, UInt32.toNat_sub_of_le _ _ g.one_le_side, side_toNat,
      span, UInt32.toNat_one, Nat.and_two_pow_sub_one_eq_mod, ← span, toNat_number h,
      toNat_coordinate (g.column_lt k), column]
  have hy : UInt32.ofNat k >>> g.logSide = UInt32.ofNat (g.row k) := by
    have hlog := g.logSide_lt
    rw [← UInt32.toNat_inj, UInt32.toNat_shiftRight, Nat.mod_eq_of_lt (by omega : _ < 32),
      Nat.shiftRight_eq_div_pow, ← span, toNat_number h, toNat_coordinate (g.row_lt h), row]
  have hlt : UInt32.ofNat k < g.cells := by
    rw [UInt32.lt_iff_toNat_lt, toNat_number h]
    exact h
  rw [position, if_pos hlt, hx, hy]

/-- The bits of a column and a row give the number of the cell there. -/
theorem number_eq (hx : x < g.span) (hy : y < g.span) :
    (UInt32.ofNat y <<< g.logSide) ||| UInt32.ofNat x = UInt32.ofNat (g.cellNumber x y) := by
  have hlog := g.logSide_lt
  have hk := cellNumber_lt hx hy
  have hshift : y <<< g.logSide.toNat + x = g.cellNumber x y := by
    rw [Nat.shiftLeft_eq, ← span, cellNumber]
  have hwrap : y <<< g.logSide.toNat < 2 ^ 32 :=
    Nat.lt_of_le_of_lt (Nat.le_trans (Nat.le_add_right _ x) (Nat.le_of_eq hshift))
      (Nat.lt_trans hk g.cells.toNat_lt)
  rw [← UInt32.toNat_inj, UInt32.toNat_or, UInt32.toNat_shiftLeft,
    Nat.mod_eq_of_lt (by omega : _ < 32), toNat_coordinate hx, toNat_coordinate hy,
    Nat.mod_eq_of_lt hwrap, ← Nat.shiftLeft_add_eq_or_of_lt hx, hshift, toNat_number hk]

/-- The cell at a column and a row of the mesh. -/
theorem cellAt?_eq (hx : x < g.span) (hy : y < g.span) :
    g.cellAt? ⟨UInt32.ofNat x, UInt32.ofNat y⟩ = some ⟨UInt32.ofNat (g.cellNumber x y)⟩ := by
  rw [cellAt?, if_pos, number_eq hx hy]
  rw [UInt32.lt_iff_toNat_lt, UInt32.lt_iff_toNat_lt, side_toNat, toNat_coordinate hx,
    toNat_coordinate hy]
  exact ⟨hx, hy⟩

/-- The numbers of all cells, in order. -/
theorem ids_eq (g : Geometry) :
    g.ids = (List.range g.cells.toNat).map fun k => ⟨UInt32.ofNat k⟩ := by
  rw [ids, firstIds, Nat.min_self]

theorem zero_lt_ofNat {n : Nat} (h : n < g.span) : 0 < UInt32.ofNat n ↔ 0 < n := by
  rw [UInt32.lt_iff_toNat_lt, toNat_coordinate h, UInt32.toNat_zero]

theorem ofNat_lt_last {n : Nat} (h : n < g.span) :
    UInt32.ofNat n < g.side - 1 ↔ n + 1 < g.span := by
  rw [UInt32.lt_iff_toNat_lt, toNat_coordinate h, UInt32.toNat_sub_of_le _ _ g.one_le_side,
    side_toNat, UInt32.toNat_one]
  omega

theorem ofNat_sub_one {n : Nat} (h : 0 < n) : UInt32.ofNat n - 1 = UInt32.ofNat (n - 1) := by
  have hsplit : UInt32.ofNat n = UInt32.ofNat (n - 1) + 1 := by
    rw [← UInt32.ofNat_one, ← UInt32.ofNat_add, Nat.sub_add_cancel h]
  rw [hsplit, UInt32.add_sub_cancel]

/-- A step on words is a step on numbers. -/
theorem step?_eq (hx : x < g.span) (hy : y < g.span) (d : Direction) :
    g.step? ⟨UInt32.ofNat x, UInt32.ofNat y⟩ d =
      (around g.span x y d).map fun p => ⟨UInt32.ofNat p.1, UInt32.ofNat p.2⟩ := by
  cases d with
  | north =>
    simp only [step?, around, zero_lt_ofNat hy]
    split
    · next h => rw [ofNat_sub_one h]; rfl
    · rfl
  | south =>
    simp only [step?, around, ofNat_lt_last hy]
    split
    · rw [← UInt32.ofNat_one, ← UInt32.ofNat_add]; rfl
    · rfl
  | east =>
    simp only [step?, around, ofNat_lt_last hx]
    split
    · rw [← UInt32.ofNat_one, ← UInt32.ofNat_add]; rfl
    · rfl
  | west =>
    simp only [step?, around, zero_lt_ofNat hx]
    split
    · next h => rw [ofNat_sub_one h]; rfl
    · rfl

/-! ### Neighbors -/

/-- The neighbor of a cell in a direction. -/
def mate (g : Geometry) (k : Nat) (d : Direction) : Option Nat :=
  if k < g.cells.toNat then
    (around g.span (g.column k) (g.row k) d).map fun p => g.cellNumber p.1 p.2
  else none

theorem mate_eq_some_iff {k j : Nat} {d : Direction} : g.mate k d = some j ↔
    k < g.cells.toNat ∧ j < g.cells.toNat ∧
      around g.span (g.column k) (g.row k) d = some (g.column j, g.row j) := by
  unfold mate
  constructor
  · intro h
    split at h
    · next hk =>
      obtain ⟨⟨x, y⟩, haround, rfl⟩ := Option.map_eq_some_iff.1 h
      obtain ⟨hx, hy⟩ := around_lt (g.column_lt k) (g.row_lt hk) haround
      rw [column_cellNumber hx, row_cellNumber hx]
      exact ⟨hk, cellNumber_lt hx hy, haround⟩
    · cases h
  · rintro ⟨hk, -, haround⟩
    rw [if_pos hk, haround, Option.map_some, cellNumber_column_row]

theorem mate_symm {k j : Nat} {d : Direction} (h : g.mate k d = some j) :
    g.mate j d.opposite = some k := by
  obtain ⟨hk, hj, haround⟩ := mate_eq_some_iff.1 h
  exact mate_eq_some_iff.2 ⟨hj, hk, around_symm (g.column_lt k) (g.row_lt hk) haround⟩

theorem mate_ne {k j : Nat} {d : Direction} (h : g.mate k d = some j) : j ≠ k := by
  rintro rfl
  exact around_ne (mate_eq_some_iff.1 h).2.2 ⟨rfl, rfl⟩

theorem mate_lt {k j : Nat} {d : Direction} (h : g.mate k d = some j) :
    k < g.cells.toNat ∧ j < g.cells.toNat :=
  ⟨(mate_eq_some_iff.1 h).1, (mate_eq_some_iff.1 h).2.1⟩

/-- **The neighbors of a cell stand one step away.** -/
theorem neighbors_eq {k : Nat} (h : k < g.cells.toNat) : g.neighbors ⟨UInt32.ofNat k⟩ =
    .ok (.ofFn fun d => (g.mate k d).map fun j => ⟨UInt32.ofNat j⟩) := by
  have hcell : ∀ d, (g.step? ⟨UInt32.ofNat (g.column k), UInt32.ofNat (g.row k)⟩ d).bind g.cellAt? =
      (g.mate k d).map fun j => (⟨UInt32.ofNat j⟩ : CellId) := by
    intro d
    rw [step?_eq (g.column_lt k) (g.row_lt h), mate, if_pos h]
    cases hp : around g.span (g.column k) (g.row k) d with
    | none => rfl
    | some p =>
      obtain ⟨hx, hy⟩ := around_lt (g.column_lt k) (g.row_lt h) hp
      exact cellAt?_eq hx hy
  rw [neighbors, position_eq h]
  change Except.ok _ = _
  simp only [hcell]

/-! ### How many neighbors there are -/

/-- The number of neighbors of a cell. -/
def degree (g : Geometry) (k : Nat) : Nat := Direction.all.countP fun d => (g.mate k d).isSome

theorem degree_cellNumber {g : Geometry} {x y : Nat} (hx : x < g.span) (hy : y < g.span) :
    g.degree (g.cellNumber x y) =
      ((if 0 < y then 1 else 0) + if y + 1 < g.span then 1 else 0) +
      ((if 0 < x then 1 else 0) + if x + 1 < g.span then 1 else 0) := by
  have hmate : ∀ d, (g.mate (g.cellNumber x y) d).isSome = (around g.span x y d).isSome := by
    intro d
    rw [mate, if_pos (cellNumber_lt hx hy), column_cellNumber hx, row_cellNumber hx,
      Option.isSome_map]
  have hsome : ∀ {p : Prop} [Decidable p] (q : Nat × Nat),
      (if (if p then some q else none).isSome = true then 1 else 0) = if p then 1 else 0 := by
    intro p _ q
    split <;> simp_all
  simp only [degree, hmate, Direction.all, List.countP_cons, List.countP_nil, around, hsome]
  omega

/-- **A mesh of side `L` has `4 L (L - 1)` ordered pairs of neighbors.** -/
theorem sum_degree (g : Geometry) :
    ((List.range g.cells.toNat).map g.degree).sum = 4 * g.span * (g.span - 1) := by
  have hterm : ∀ y ∈ List.range g.span, ((List.range g.span).map fun x =>
      g.degree (y * g.span + x)).sum = g.span * ((if 0 < y then 1 else 0) +
        if y + 1 < g.span then 1 else 0) + 2 * (g.span - 1) := by
    intro y hy
    have hcells : (List.range g.span).map (fun x => g.degree (y * g.span + x)) =
        (List.range g.span).map fun x => ((if 0 < y then 1 else 0) +
          if y + 1 < g.span then 1 else 0) + ((if 0 < x then 1 else 0) +
            if x + 1 < g.span then 1 else 0) := List.map_congr_left fun x hx =>
      degree_cellNumber (List.mem_range.1 hx) (List.mem_range.1 hy)
    rw [hcells, List.sum_map_add, sum_beside, List.map_const', List.sum_replicate_nat,
      List.length_range]
  rw [cells_toNat, sum_range_mul, List.map_congr_left hterm, List.sum_map_add, List.sum_map_mul_left,
    sum_beside, List.map_const', List.sum_replicate_nat, List.length_range]
  ring

/-! ### Distances -/

/-- The number of steps from one cell to another. -/
def distance (g : Geometry) (a b : Nat) : Nat :=
  ((g.column a : Int) - g.column b).natAbs + ((g.row a : Int) - g.row b).natAbs

/-- **What differs by one at most between neighbors differs by no more than the distance.** The
proof walks from the one cell to the other, one step at a time. -/
theorem le_add_distance {f : Nat → Nat} (hf : ∀ {k d j}, g.mate k d = some j → f k ≤ f j + 1)
    {a b : Nat} (ha : a < g.cells.toNat) (hb : b < g.cells.toNat) :
    f a ≤ f b + g.distance a b := by
  generalize hn : g.distance a b = n
  induction n generalizing a with
  | zero =>
    rw [distance] at hn
    have hcolumn : g.column a = g.column b := by omega
    have hrow : g.row a = g.row b := by omega
    have hab : a = b := by
      rw [← g.cellNumber_column_row a, hcolumn, hrow, cellNumber_column_row]
    rw [hab]
    exact Nat.le_refl _
  | succ n ih =>
    have hne : ¬ (g.column a = g.column b ∧ g.row a = g.row b) := by
      rintro ⟨hcolumn, hrow⟩
      rw [distance, hcolumn, hrow, Int.sub_self, Int.sub_self] at hn
      cases hn
    obtain ⟨d, x, y, haround, hcloser⟩ :=
      exists_around (g.column_lt a) (g.row_lt ha) (g.column_lt b) (g.row_lt hb) hne
    obtain ⟨hx, hy⟩ := around_lt (g.column_lt a) (g.row_lt ha) haround
    have hmate : g.mate a d = some (g.cellNumber x y) := by
      rw [mate, if_pos ha, haround]
      rfl
    have hdistance : g.distance (g.cellNumber x y) b = n := by
      rw [distance] at hn
      rw [distance, column_cellNumber hx, row_cellNumber hx]
      omega
    have hstep := hf hmate
    have hrest := ih (cellNumber_lt hx hy) hdistance
    omega

end Geometry
end DiffusionMesh

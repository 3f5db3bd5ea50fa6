/-
# What the cells of a mesh emit

A cell emits the positions of its tile, row by row, at their places in the whole grid. The tiles
cover the grid without overlap, so the words of all cells, in whatever order they come, name every
position of the grid once, whatever the tiles hold.

```
   position (r, c) of the grid = position (r mod S, c mod S) of the tile of cell (c / S, r / S)
```

Coordinates are computed in 32-bit words and packed into twelve bits. As long as the side of the
grid is at most 4096, neither loses anything.

Main statements: `Geometry.spots_words`, `Geometry.Exact.of_lt` and `Geometry.emission_covers`.
-/

import DiffusionMesh.Image.Emit
import DiffusionMesh.Proofs.Image.Mosaic
import DiffusionMesh.Proofs.Mesh.Layout
import DiffusionMesh.Proofs.Tile.Field

namespace DiffusionMesh

/-- The temperatures of a tile, position by position. -/
theorem Tile.entries_eq (t : Tile) :
    t.entries = (squares t.size).map fun p => (p.1, p.2, t.value p.1 p.2) := by
  have hlength : t.cells.toList.length = t.size * t.size := t.cells_size
  refine List.ext_getElem (by simp [entries, squares, t.cells_size]) fun k hk hk' => ?_
  have hlt : k < t.cells.size := by simpa [entries] using hk
  have hindex : k / t.size * t.size + k % t.size = k := Nat.div_add_mod' k t.size
  simp [entries, squares, value, hindex, hlt]

namespace Geometry

variable {g : Geometry} {S k : Nat} {t : Tile} {w : ResultWord}

/-- The place of the cell with a number. -/
def place (g : Geometry) (k : Nat) : Position := ⟨UInt32.ofNat (g.column k), UInt32.ofNat (g.row k)⟩

/-- The words of a tile, position by position. -/
theorem resultWords_place (g : Geometry) (k : Nat) (ht : t.size = S) :
    t.resultWords (g.place k) = (squares S).map fun p =>
      .pack (UInt32.ofNat (g.row k * S + p.1)) (UInt32.ofNat (g.column k * S + p.2))
        (t.value p.1 p.2).byte := by
  rw [Tile.resultWords, Tile.entries_eq, List.map_map, ht]
  refine List.map_congr_left fun p _ => ?_
  simp only [Function.comp_apply, place, ← UInt32.ofNat_mul, ← UInt32.ofNat_add]

/-- The coordinates of a tile's positions lie in the grid. -/
theorem coordinate_lt (hside : g.span * S ≤ 4096) (hk : k < g.cells.toNat) {i j : Nat}
    (hi : i < S) (hj : j < S) :
    (UInt32.ofNat (g.row k * S + i)).toNat = g.row k * S + i ∧ g.row k * S + i < g.span * S ∧
    (UInt32.ofNat (g.column k * S + j)).toNat = g.column k * S + j ∧
    g.column k * S + j < g.span * S := by
  have hrow := row_mul_le S hk
  have hcolumn := g.column_mul_le S k
  refine ⟨?_, by omega, ?_, by omega⟩
  · rw [UInt32.toNat_ofNat', Nat.mod_eq_of_lt (by omega)]
  · rw [UInt32.toNat_ofNat', Nat.mod_eq_of_lt (by omega)]

/-- **A word of a tile stands for one of its positions**: it names the place of that position in the
grid and holds the byte there. -/
theorem exists_of_mem_resultWords (hside : g.span * S ≤ 4096) (hk : k < g.cells.toNat)
    (ht : t.size = S) (hw : w ∈ t.resultWords (g.place k)) :
    ∃ i j, i < S ∧ j < S ∧ w.row.toNat = g.row k * S + i ∧ w.column.toNat = g.column k * S + j ∧
      w.temperature = (t.value i j).byte := by
  rw [resultWords_place g k ht] at hw
  obtain ⟨p, hp, rfl⟩ := List.mem_map.1 hw
  obtain ⟨hi, hj⟩ := mem_squares.1 hp
  obtain ⟨hrow, hrow', hcolumn, hcolumn'⟩ := coordinate_lt hside hk hi hj
  have hrow₁ : (UInt32.ofNat (g.row k * S + p.1)).toNat < 4096 := by omega
  have hcolumn₁ : (UInt32.ofNat (g.column k * S + p.2)).toNat < 4096 := by omega
  obtain ⟨hspot, hspot'⟩ :=
    Prod.mk.inj (ResultWord.spot_pack hrow₁ hcolumn₁ (t.value p.1 p.2).byte)
  exact ⟨p.1, p.2, hi, hj, hspot.trans hrow, hspot'.trans hcolumn,
    ResultWord.temperature_pack hrow₁ hcolumn₁ _⟩

/-- The positions that the words of a tile name. -/
theorem spots_resultWords (hside : g.span * S ≤ 4096) (hk : k < g.cells.toNat) (ht : t.size = S) :
    (t.resultWords (g.place k)).map ResultWord.spot =
      (squares S).map fun p => (g.row k * S + p.1, g.column k * S + p.2) := by
  rw [resultWords_place g k ht, List.map_map]
  refine List.map_congr_left fun p hp => ?_
  obtain ⟨hi, hj⟩ := mem_squares.1 hp
  obtain ⟨hrow, hrow', hcolumn, hcolumn'⟩ := coordinate_lt hside hk hi hj
  rw [Function.comp_apply, ResultWord.spot_pack (by omega) (by omega), hrow, hcolumn]

/-- Tiles do not overlap. -/
theorem eq_of_place_eq {j i c i' c' : Nat} (hi : i < S) (hc : c < S) (hi' : i' < S) (hc' : c' < S)
    (hrow : g.row k * S + i = g.row j * S + i')
    (hcolumn : g.column k * S + c = g.column j * S + c') : k = j := by
  rw [← g.cellNumber_column_row k, (eq_of_mul_add_eq hc hc' hcolumn).1,
    (eq_of_mul_add_eq hi hi' hrow).1, cellNumber_column_row]

/-- Every position of the grid lies in a tile. -/
theorem exists_place {r c : Nat} (hr : r < g.span * S) (hc : c < g.span * S) :
    ∃ k, k < g.cells.toNat ∧ ∃ i j, i < S ∧ j < S ∧
      g.row k * S + i = r ∧ g.column k * S + j = c := by
  have hpos : 0 < S := Nat.pos_of_mul_pos_left (Nat.zero_lt_of_lt hr)
  have hrow : r / S < g.span := Nat.div_lt_of_lt_mul (Nat.mul_comm g.span S ▸ hr)
  have hcolumn : c / S < g.span := Nat.div_lt_of_lt_mul (Nat.mul_comm g.span S ▸ hc)
  refine ⟨g.cellNumber (c / S) (r / S), cellNumber_lt hcolumn hrow, r % S, c % S,
    Nat.mod_lt _ hpos, Nat.mod_lt _ hpos, ?_, ?_⟩
  · rw [row_cellNumber hcolumn, Nat.mul_comm, Nat.div_add_mod]
  · rw [column_cellNumber hcolumn, Nat.mul_comm, Nat.div_add_mod]

/-- **The words of all cells name every position of the grid once**, in whatever order the cells
emit them and whatever their tiles hold. -/
theorem spots_words (tiles : Nat → Tile) (hside : g.span * S ≤ 4096)
    (hsize : ∀ k, k < g.cells.toNat → (tiles k).size = S) {order : List Nat} (hnodup : order.Nodup)
    (hmem : ∀ k, k ∈ order ↔ k < g.cells.toNat) :
    ((order.flatMap fun k => (tiles k).resultWords (g.place k)).map ResultWord.spot).Perm
      (squares (g.span * S)) := by
  have hspots : (order.flatMap fun k => (tiles k).resultWords (g.place k)).map ResultWord.spot =
      order.flatMap fun k =>
        (squares S).map fun p => (g.row k * S + p.1, g.column k * S + p.2) := by
    rw [List.map_flatMap]
    exact List.flatMap_congr fun k hk =>
      have hk := (hmem k).1 hk
      spots_resultWords hside hk (hsize k hk)
  rw [hspots]
  refine (List.perm_ext_iff_of_nodup ?_ (nodup_squares _)).2 fun ⟨r, c⟩ => ?_
  · rw [List.nodup_flatMap]
    refine ⟨fun k _ => (nodup_squares S).map fun p q hpq => ?_, hnodup.imp fun {k j} hkj => ?_⟩
    · obtain ⟨hrow, hcolumn⟩ := Prod.mk.inj hpq
      exact Prod.ext (Nat.add_left_cancel hrow) (Nat.add_left_cancel hcolumn)
    · intro spot hk hj
      obtain ⟨p, hp, rfl⟩ := List.mem_map.1 hk
      obtain ⟨q, hq, hpq⟩ := List.mem_map.1 hj
      obtain ⟨hrow, hcolumn⟩ := Prod.mk.inj hpq
      obtain ⟨hi, hc⟩ := mem_squares.1 hp
      obtain ⟨hi', hc'⟩ := mem_squares.1 hq
      exact hkj (eq_of_place_eq hi hc hi' hc' hrow.symm hcolumn.symm)
  · rw [List.mem_flatMap, mem_squares]
    constructor
    · rintro ⟨k, hk, hspot⟩
      obtain ⟨p, hp, hpq⟩ := List.mem_map.1 hspot
      obtain ⟨rfl, rfl⟩ := Prod.mk.inj hpq
      obtain ⟨hi, hj⟩ := mem_squares.1 hp
      obtain ⟨-, hrow, -, hcolumn⟩ := coordinate_lt hside ((hmem k).1 hk) hi hj
      exact ⟨hrow, hcolumn⟩
    · rintro ⟨hr, hc⟩
      obtain ⟨k, hk, i, j, hi, hj, rfl, rfl⟩ := exists_place hr hc
      exact ⟨k, (hmem k).2 hk, List.mem_map.2 ⟨(i, j), mem_squares.2 ⟨hi, hj⟩, rfl⟩⟩

/-! ### Coordinates in machine words -/

/-- The coordinate `start · size + offset` of a grid position is computed without overflow, in the
product and in the sum, and loses nothing when it is packed. -/
structure Exact (start : UInt32) (size offset : Nat) : Prop where
  product : (start * UInt32.ofNat size).toNat = start.toNat * size
  sum : (start * UInt32.ofNat size + UInt32.ofNat offset).toNat = start.toNat * size + offset
  unmasked : (start * UInt32.ofNat size + UInt32.ofNat offset) &&& ResultWord.maxCoordinate =
    start * UInt32.ofNat size + UInt32.ofNat offset

/-- **Coordinates within the limit are exact.** -/
theorem Exact.of_lt {start : UInt32} {size offset : Nat} (hsize : size ≤ 4096)
    (h : start.toNat * size + offset < 4096) : Exact start size offset := by
  have hword : (UInt32.ofNat size).toNat = size := UInt32.toNat_ofNat_of_lt' (by
    have : UInt32.size = 4294967296 := rfl
    omega)
  have hproduct : (start * UInt32.ofNat size).toNat = start.toNat * size := by
    rw [UInt32.toNat_mul, hword, Nat.mod_eq_of_lt (by omega)]
  have hsum : (start * UInt32.ofNat size + UInt32.ofNat offset).toNat =
      start.toNat * size + offset := by
    rw [UInt32.toNat_add, hproduct, UInt32.toNat_ofNat', Nat.mod_eq_of_lt (a := offset) (by omega),
      Nat.mod_eq_of_lt (by omega)]
  refine ⟨hproduct, hsum, ?_⟩
  rw [← UInt32.toNat_inj, UInt32.toNat_and, show ResultWord.maxCoordinate.toNat = 2 ^ 12 - 1 from rfl,
    Nat.and_two_pow_sub_one_eq_mod, hsum, Nat.mod_eq_of_lt (by omega)]

/-! ### The words of a whole mesh -/

/-- The words that the cells of a mesh emit, cell by cell, when each holds the given tile. -/
def emission (g : Geometry) (tiles : CellId → Tile) : Except Failure (List (List ResultWord)) :=
  g.ids.mapM fun id => do
    let p ← g.position id
    return (tiles id).resultWords p

/-- Every cell has a place, so every cell emits its words. -/
theorem emission_eq (g : Geometry) (tiles : CellId → Tile) : g.emission tiles =
    .ok ((List.range g.cells.toNat).map fun k =>
      (tiles ⟨UInt32.ofNat k⟩).resultWords (g.place k)) := by
  rw [emission, ids_eq, List.mapM_map]
  refine mapM_eq_ok fun k hk => ?_
  rw [Function.comp_apply, position_eq (List.mem_range.1 hk)]
  rfl

/-- The byte at a position of the grid when the cells hold the given tiles. -/
def byteAt (g : Geometry) (S : Nat) (tiles : CellId → Tile) (r c : Nat) : UInt8 :=
  ((tiles ⟨UInt32.ofNat (g.cellNumber (c / S) (r / S))⟩).value (r % S) (c % S)).byte

theorem byteAt_place {tiles : CellId → Tile} {x y i j : Nat} (hi : i < S) (hj : j < S) :
    g.byteAt S tiles (y * S + i) (x * S + j) =
      ((tiles ⟨UInt32.ofNat (g.cellNumber x y)⟩).value i j).byte := by
  rw [byteAt, Solver.div_row hi, Solver.div_row hj, Solver.mod_row hi, Solver.mod_row hj]

/-- **The words of a mesh cover its grid exactly once.** Whatever the tiles hold, every cell emits a
word for each position of its tile, with exact coordinates; in whatever order the words of all cells
come, they name every position of the grid once, and they make up a heat map that holds, at the
place of each tile, the bytes of that tile. -/
theorem emission_covers (g : Geometry) (tiles : CellId → Tile) {S : Nat}
    (hside : g.side.toNat * S ≤ 4096) (hsize : ∀ id ∈ g.ids, (tiles id).size = S) :
    ∃ emitted, g.emission tiles = .ok emitted ∧ emitted.length = g.cells.toNat ∧
      (∀ words ∈ emitted, words.length = S * S) ∧
      (∀ id ∈ g.ids, ∃ p, g.position id = .ok p ∧
        ∀ i j, i < S → j < S → Exact p.y S i ∧ Exact p.x S j) ∧
      ∀ words, words.Perm emitted.flatten →
        (∀ w ∈ words, w.row.toNat < g.side.toNat * S ∧ w.column.toNat < g.side.toNat * S) ∧
        (∀ r c, r < g.side.toNat * S → c < g.side.toNat * S →
          (words.map ResultWord.spot).count (r, c) = 1) ∧
        ∃ map, HeatMap.ofWords (g.side.toNat * S) words = .ok map ∧
          ∀ x y i j, x < g.side.toNat → y < g.side.toNat → i < S → j < S →
            map.get? (y * S + i) (x * S + j) = some
              ((tiles ⟨(UInt32.ofNat y <<< g.logSide) ||| UInt32.ofNat x⟩).value i j).byte := by
  rw [side_toNat] at *
  have htiles : ∀ k, k < g.cells.toNat → (tiles ⟨UInt32.ofNat k⟩).size = S := fun k hk =>
    hsize _ (by rw [ids_eq]; exact List.mem_map.2 ⟨k, List.mem_range.2 hk, rfl⟩)
  refine ⟨_, emission_eq g tiles, by rw [List.length_map, List.length_range], ?_, ?_, ?_⟩
  · intro words hwords
    obtain ⟨k, hk, rfl⟩ := List.mem_map.1 hwords
    rw [resultWords_place g k (htiles k (List.mem_range.1 hk)), List.length_map, squares,
      List.length_map, List.length_range]
  · intro id hid
    rw [ids_eq] at hid
    obtain ⟨k, hk, rfl⟩ := List.mem_map.1 hid
    have hk := List.mem_range.1 hk
    refine ⟨_, position_eq hk, fun i j hi hj => ?_⟩
    obtain ⟨-, hrow, -, hcolumn⟩ := coordinate_lt hside hk hi hj
    have hS : S ≤ 4096 := Nat.le_trans (Nat.le_mul_of_pos_left S g.span_pos) hside
    constructor
    · exact .of_lt hS (by rw [toNat_coordinate (g.row_lt hk)]; omega)
    · exact .of_lt hS (by rw [toNat_coordinate (g.column_lt k)]; omega)
  · intro words hwords
    rw [← List.flatMap_def] at hwords
    have hspots := (hwords.map ResultWord.spot).trans (spots_words _ hside htiles
      List.nodup_range fun k => List.mem_range)
    refine ⟨fun w hw => ?_, fun r c hr hc => ?_, ?_⟩
    · exact mem_squares.1 (hspots.mem_iff.1 (List.mem_map_of_mem hw))
    · rw [hspots.count_eq]
      exact List.count_eq_one_of_mem (nodup_squares _) (mem_squares.2 ⟨hr, hc⟩)
    · -- the byte at a position of the grid is that of the tile around it
      refine ⟨_, HeatMap.ofWords_eq (f := g.byteAt S tiles) hside hspots fun w hw => ?_,
        fun x y i j hx hy hi hj => ?_⟩
      · obtain ⟨k, hk, hw⟩ := List.mem_flatMap.1 (hwords.mem_iff.1 hw)
        have hk := List.mem_range.1 hk
        obtain ⟨i, j, hi, hj, hrow, hcolumn, hbyte⟩ :=
          exists_of_mem_resultWords hside hk (htiles k hk) hw
        rw [hbyte, hrow, hcolumn, byteAt_place hi hj, cellNumber_column_row]
      · have hrow := mul_add_le S hy
        have hcolumn := mul_add_le S hx
        have hc : x * S + j < g.span * S := by omega
        have hk : (y * S + i) * (g.span * S) + (x * S + j) < g.span * S * (g.span * S) :=
          Tile.index_lt (by omega) hc
        rw [HeatMap.get?, Array.getElem?_eq_getElem (by rwa [Array.size_ofFn]),
          Array.getElem_ofFn, Solver.div_row hc, Solver.mod_row hc, byteAt_place hi hj,
          number_eq hx hy]

/-- Four cells with tiles of side two that hold a temperature of its own at each position; their
words come in the reverse order. -/
theorem emission_covers_square :
    let g : Geometry := ⟨4, 1, rfl⟩
    let tiles : CellId → Tile := fun id =>
      .ofFn 2 fun i j => .ofDegrees (Int32.ofNat (4 * id.index.toNat + 2 * i + j))
    ∃ emitted, g.emission tiles = .ok emitted ∧
      (emitted.flatten.reverse.map ResultWord.spot).count (3, 0) = 1 ∧
      ∃ map, HeatMap.ofWords 4 emitted.flatten.reverse = .ok map ∧ map.get? 3 0 = some 10 := by
  intro g tiles
  have hside : g.side.toNat * 2 = 4 := by decide
  have hbyte : ((tiles ⟨(UInt32.ofNat 1 <<< g.logSide) ||| UInt32.ofNat 0⟩).value 1 0).byte = 10 := by
    decide
  obtain ⟨emitted, hemitted, -, -, -, hwords⟩ :=
    emission_covers g tiles (S := 2) (by decide) fun _ _ => rfl
  rw [hside] at hwords
  obtain ⟨-, hcount, map, hmap, hget⟩ := hwords emitted.flatten.reverse (List.reverse_perm _)
  have hten := hget 0 1 1 0 (by decide) (by decide) (by decide) (by decide)
  rw [hbyte] at hten
  exact ⟨emitted, hemitted, hcount 3 0 (by decide) (by decide), map, hmap, hten⟩

end Geometry
end DiffusionMesh

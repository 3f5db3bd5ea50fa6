/-
# Tiles and edges

A tile is a square of temperatures, kept row by row. An edge is one border of a tile: north and
south edges run along the columns, east and west edges along the rows.

A position of a tile is read through its flat index `row · size + column`. Only that index is
checked, so a column beyond the last one reads on in the next row.
-/

import DiffusionMesh.Grid.Compass
import DiffusionMesh.Temperature

namespace DiffusionMesh

/-- One border of a tile. -/
abbrev Edge := Array Temperature

namespace Edge

/-- An edge of `n` equal temperatures. -/
def filled (n : Nat) (t : Temperature) : Edge := Array.replicate n t

/-- The `i`-th temperature, zero beyond the end. -/
def value (e : Edge) (i : Nat) : Temperature := e.getD i .zero

@[simp] theorem size_filled (n : Nat) (t : Temperature) : (filled n t).size = n :=
  Array.size_replicate

theorem value_filled {n i : Nat} (t : Temperature) (h : i < n) : (filled n t).value i = t := by
  simp [value, filled, h]

end Edge

/-- A square of temperatures, row by row. -/
structure Tile where
  size : Nat
  cells : Array Temperature
  cells_size : cells.size = size * size
deriving DecidableEq, Repr

namespace Tile

/-- The tile of a function's values at row and column. -/
def ofFn (size : Nat) (f : Nat → Nat → Temperature) : Tile where
  size := size
  cells := Array.ofFn fun k : Fin (size * size) => f (k.val / size) (k.val % size)
  cells_size := Array.size_ofFn

/-- The tile that is zero everywhere. -/
def zeros (size : Nat) : Tile where
  size := size
  cells := Array.replicate (size * size) .zero
  cells_size := Array.size_replicate

instance : Inhabited Tile := ⟨zeros 0⟩

/-- The temperature at the flat index of a row and a column, if the index is in range. -/
def get? (t : Tile) (row column : Nat) : Option Temperature := t.cells[row * t.size + column]?

/-- The temperature at a row and a column, zero if the flat index is out of range. -/
def value (t : Tile) (row column : Nat) : Temperature :=
  t.cells.getD (row * t.size + column) .zero

/-- The tile with another temperature at the flat index of a row and a column, if the index is
in range. -/
def set? (t : Tile) (row column : Nat) (temperature : Temperature) : Option Tile :=
  if row * t.size + column < t.cells.size then
    some { t with
      cells := t.cells.setIfInBounds (row * t.size + column) temperature
      cells_size := by rw [Array.size_setIfInBounds]; exact t.cells_size }
  else none

/-- All temperatures with their rows and columns, row by row. -/
def entries (t : Tile) : List (Nat × Nat × Temperature) :=
  t.cells.toList.zipIdx.map fun (v, k) => (k / t.size, k % t.size, v)

/-- A position inside a tile has a flat index in range. -/
theorem index_lt {size row column : Nat} (hr : row < size) (hc : column < size) :
    row * size + column < size * size := by
  have h : (row + 1) * size ≤ size * size := Nat.mul_le_mul_right _ hr
  rw [Nat.add_mul] at h
  omega

theorem value_eq_of_get? {t : Tile} {row column : Nat} {v : Temperature}
    (h : t.get? row column = some v) : t.value row column = v := by
  unfold get? at h
  unfold value
  rw [Array.getD_eq_getD_getElem?, h]
  rfl

/-- **A tile made from a function holds the function's values.** -/
theorem get?_ofFn {size row column : Nat} (f : Nat → Nat → Temperature) (hr : row < size)
    (hc : column < size) : (ofFn size f).get? row column = some (f row column) := by
  have hk : row * size + column < size * size := index_lt hr hc
  have hdiv : (row * size + column) / size = row := by
    rw [Nat.mul_comm, Nat.mul_add_div (by omega), Nat.div_eq_of_lt hc, Nat.add_zero]
  have hmod : (row * size + column) % size = column := by
    rw [Nat.mul_comm, Nat.mul_add_mod, Nat.mod_eq_of_lt hc]
  simp [get?, ofFn, hk, hdiv, hmod]

theorem value_ofFn {size row column : Nat} (f : Nat → Nat → Temperature) (hr : row < size)
    (hc : column < size) : (ofFn size f).value row column = f row column :=
  value_eq_of_get? (get?_ofFn f hr hc)

end Tile
end DiffusionMesh

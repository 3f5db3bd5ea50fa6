/-
# The sequential solver

The whole grid is solved at once, without cells and messages. The grid has a ring around it that
holds the temperatures beyond its sides; the corners of the ring are zero. Two grids take turns:
each step fills the positions inside the ring of the one from the other.

A position is read through its flat index in the grid with its ring, so a column or row just
beyond the last one is a place of the ring.
-/

import DiffusionMesh.Tile.Update

namespace DiffusionMesh

/-- Two grids with their rings, row by row, and the number of steps so far. -/
structure Solver where
  side : Nat
  current : Array Temperature
  next : Array Temperature
  iterations : UInt32
deriving DecidableEq, Repr

namespace Solver

/-- Whether a row and a column, counted from the ring, lie inside the ring. -/
def inside (side row column : Nat) : Bool :=
  1 ≤ row && row ≤ side && 1 ≤ column && column ≤ side

/-- The temperature of the ring and zero inside it, at a row and a column counted from the ring. -/
def ringValue (side : Nat) (border : Border) (row column : Nat) : Temperature :=
  if 1 ≤ column && column ≤ side then
    if row = 0 then border.north else if row = side + 1 then border.south else .zero
  else if 1 ≤ row && row ≤ side then
    if column = 0 then border.west else if column = side + 1 then border.east else .zero
  else .zero

/-- A grid that is zero inside its ring. -/
def create (side : Nat) (border : Border) : Solver :=
  let width := side + 2
  let grid := Array.ofFn fun k : Fin (width * width) =>
    ringValue side border (k.val / width) (k.val % width)
  ⟨side, grid, grid, 0⟩

variable (s : Solver)

/-- The number of places in a row, the ring included. -/
def width : Nat := s.side + 2

/-- The temperature at a flat index of the current grid. -/
def place (k : Nat) : Temperature := s.current.getD k .zero

/-- The temperature at a row and a column of the grid, if the flat index is in range. -/
def get? (row column : Nat) : Option Temperature :=
  s.current[(row + 1) * s.width + column + 1]?

/-- The temperature at a row and a column of the grid. -/
def value (row column : Nat) : Temperature := s.place ((row + 1) * s.width + column + 1)

/-- The next temperature at a flat index inside the ring. -/
def nextAt (k : Nat) : Temperature :=
  nextTemperature (s.place k) (s.place (k - s.width)) (s.place (k + s.width)) (s.place (k + 1))
    (s.place (k - 1))

/-- One step. -/
def step : Solver where
  side := s.side
  current := s.next.mapIdx fun k old =>
    if inside s.side (k / s.width) (k % s.width) then s.nextAt k else old
  next := s.current
  iterations := s.iterations + 1

/-- Several steps. -/
def run : Nat → Solver → Solver
  | 0, s => s
  | n + 1, s => run n s.step

/-- The temperature bytes, row by row. -/
def bytes : Array UInt8 :=
  Array.ofFn fun k : Fin (s.side * s.side) => (s.value (k.val / s.side) (k.val % s.side)).byte

/-- The temperatures, as rows. -/
def rows : List (List Temperature) :=
  (List.range s.side).map fun i => (List.range s.side).map fun j => s.value i j

end Solver
end DiffusionMesh

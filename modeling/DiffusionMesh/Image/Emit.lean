/-
# Result words of a tile

A finished cell reports each position of its tile, row by row, at its place in the whole grid: the
tile of the cell at column `x` and row `y` of the mesh begins at row `y · size` and column
`x · size`.
-/

import DiffusionMesh.Grid.CellId
import DiffusionMesh.Image.ResultWord
import DiffusionMesh.Tile.Basic

namespace DiffusionMesh

/-- The result words of the tile of the cell at a place. -/
def Tile.resultWords (t : Tile) (p : Position) : List ResultWord :=
  let size := UInt32.ofNat t.size
  let row := p.y * size
  let column := p.x * size
  t.entries.map fun (i, j, v) => .pack (row + UInt32.ofNat i) (column + UInt32.ofNat j) v.byte

end DiffusionMesh

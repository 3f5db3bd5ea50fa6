/-
# Cells and their places

A cell is known by a number, and stands at a column `x` and a row `y` of the mesh.
-/

namespace DiffusionMesh

/-- The number of a cell. -/
structure CellId where
  index : UInt32
deriving DecidableEq, Repr, Inhabited

/-- The name that messages show. -/
def CellId.label (c : CellId) : String := "cell_" ++ toString c.index

/-- A place in the mesh: column `x`, row `y`. -/
structure Position where
  x : UInt32
  y : UInt32
deriving DecidableEq, Repr, Inhabited

end DiffusionMesh

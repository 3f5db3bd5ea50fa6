/-
# Settings of a mesh

| setting | default | accepted |
| --- | --- | --- |
| `cells` | 64 | a power of four |
| `messageWords` | 8 | at least 2 |
| `iterations` | 1000 | any |
| `linkCapacity` | 1 | at least 1 |
| `boundary` | 255, 40, 40, 255 | whole degrees from -32768 to 32767 |

The side of the whole grid may not exceed 4096. `validate` names the first condition that fails,
in the order of the table.
-/

import DiffusionMesh.Grid.Geometry
import DiffusionMesh.Tile.Update

namespace DiffusionMesh

/-- The settings of a mesh. The boundary is in whole degrees. -/
structure Config where
  cells : UInt32 := 64
  messageWords : UInt64 := 8
  iterations : UInt32 := 1000
  linkCapacity : UInt64 := 1
  boundary : Compass Int32 := ⟨255, 40, 40, 255⟩
deriving DecidableEq, Repr, Inhabited

namespace Config

variable (c : Config)

/-- The side of a tile: a message holds a header and one edge. -/
def edgeLength : UInt64 := if c.messageWords = 0 then 0 else c.messageWords - 1

/-- The mesh. -/
def geometry : Except Failure Geometry := Geometry.ofCells c.cells

/-- The temperatures beyond the sides of the mesh. -/
def border : Border := c.boundary.map .ofDegrees

/-- The greatest side that result words can address. -/
def greatestSide : Nat := ResultWord.maxCoordinate.toNat + 1

/-- The side of the whole grid. -/
def globalSide (g : Geometry) : Nat := g.side.toNat * c.edgeLength.toNat

/-- Whether whole degrees fit a temperature. -/
def fits (degrees : Int32) : Bool := -32768 ≤ degrees && degrees ≤ 32767

/-- Accepts the settings, or names the first condition that fails. -/
def validate : Except Failure Unit := do
  let g ← c.geometry
  if c.messageWords < 2 then
    throw (.invalidMessageLength c.messageWords)
  if UInt64.size ≤ c.globalSide g then
    throw (.coordinateOverflow c.edgeLength.toNat)
  if greatestSide < c.globalSide g then
    throw (.coordinateOverflow (c.globalSide g))
  if c.linkCapacity = 0 then
    throw (.invalidSetting .noCapacity)
  match Direction.all.find? fun d => !fits (c.boundary.get d) with
  | some d => throw (.invalidSetting (.boundaryTooWide d (c.boundary.get d)))
  | none => return ()

end Config
end DiffusionMesh

/-
# One step of diffusion on a tile

A cell's local state is its tile, the tile under construction, and one incoming and one outgoing
edge per direction. A step gives every position the mean of its four neighbors, where a neighbor
outside the tile is read from the incoming edge on that side:

```
            incoming north
           ┌──────────────┐
 incoming  │              │  incoming
   west    │   current    │   east
           └──────────────┘
            incoming south
```

Main statement: `update_next_value`, the new tile holds the mean of the four neighbors.
-/

import DiffusionMesh.Grid.CellId
import DiffusionMesh.Tile.Basic

namespace DiffusionMesh

/-- The next temperature of a position: the old one moved by its distance to the mean of the
four neighbors. Both differences are taken, and wrap, one after the other. -/
def nextTemperature (old north south east west : Temperature) : Temperature :=
  let surroundings := (north + south + west + east).quarter
  old - (old - surroundings)

/-- The two differences cancel, also when they wrap. -/
theorem nextTemperature_eq (old north south east west : Temperature) :
    nextTemperature old north south east west = (north + south + west + east).quarter := by
  unfold nextTemperature
  generalize (north + south + west + east).quarter = q
  cases old with
  | mk a =>
    cases q with
    | mk b =>
      have h : a - (a - b) = b := by grind
      exact congrArg Temperature.mk h

/-- The temperatures beyond the four sides of the mesh. -/
abbrev Border := Compass Temperature

/-- Hot to the north and west, cold to the south and east. -/
def Border.standard : Border := ⟨.hot, .cold, .cold, .hot⟩

/-- The tile of a cell, the tile under construction, and the edges it takes in and gives out. -/
structure LocalState where
  current : Tile
  next : Tile
  incoming : Compass Edge
  outgoing : Compass Edge
deriving DecidableEq, Repr, Inhabited

namespace LocalState

/-- The state before the first step: zero, but for incoming edges without a neighbor, which hold
the temperature beyond that side of the mesh. -/
def initial (size : Nat) (neighbors : Compass (Option CellId)) (border : Border) : LocalState where
  current := .zeros size
  next := .zeros size
  incoming := .ofFn fun d =>
    .filled size (if (neighbors.get d).isNone then border.get d else .zero)
  outgoing := .const (.filled size .zero)

variable (s : LocalState)

/-- The side of the tile. -/
def size : Nat := s.current.size

/-- The neighbor of a position in a direction. -/
def neighbor (row column : Nat) : Direction → Temperature
  | .north =>
    if row = 0 then s.incoming.north.value column else s.current.value (row - 1) column
  | .south =>
    if row + 1 = s.size then s.incoming.south.value column else s.current.value (row + 1) column
  | .east =>
    if column + 1 = s.size then s.incoming.east.value row else s.current.value row (column + 1)
  | .west =>
    if column = 0 then s.incoming.west.value row else s.current.value row (column - 1)

/-- The next temperature of a position. -/
def nextAt (row column : Nat) : Temperature :=
  nextTemperature (s.current.value row column) (s.neighbor row column .north)
    (s.neighbor row column .south) (s.neighbor row column .east) (s.neighbor row column .west)

/-- The border of a tile on one side. -/
def borderOf (t : Tile) : Direction → Edge
  | .north => Array.ofFn fun k : Fin t.size => t.value 0 k.val
  | .south => Array.ofFn fun k : Fin t.size => t.value (t.size - 1) k.val
  | .east => Array.ofFn fun k : Fin t.size => t.value k.val (t.size - 1)
  | .west => Array.ofFn fun k : Fin t.size => t.value k.val 0

/-- Fills the tile under construction and stages its four borders. A tile without positions
stays as it is. -/
def update : LocalState :=
  if s.size = 0 then s
  else
    let next := Tile.ofFn s.size s.nextAt
    { s with next := next, outgoing := .ofFn (borderOf next) }

/-- Makes the tile under construction the current one, and the other way round. -/
def swap : LocalState := { s with current := s.next, next := s.current }

/-- **The new tile holds the mean of the four neighbors.** -/
theorem update_next_value {row column : Nat} (hr : row < s.size) (hc : column < s.size) :
    s.update.next.value row column =
      (s.neighbor row column .north + s.neighbor row column .south +
        s.neighbor row column .west + s.neighbor row column .east).quarter := by
  have hne : s.size ≠ 0 := by omega
  simp only [update, hne, if_false]
  rw [Tile.value_ofFn _ hr hc, nextAt, nextTemperature_eq]

end LocalState
end DiffusionMesh

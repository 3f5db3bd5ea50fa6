/-
# A mesh of cells

The cells of a mesh, wired to their neighbors, on one fabric. Cells are polled by their number;
a cell that is taken out of the mesh gives up its link ends.
-/

import DiffusionMesh.Mesh.Cell
import DiffusionMesh.Settings.Config

namespace DiffusionMesh

/-- The cells of a mesh by number, and the links between them. -/
structure Mesh where
  geometry : Geometry
  fabric : Fabric
  cells : Array (Option Cell)

namespace Mesh

/-- The cells of a mesh with the given settings, which are taken as they are. -/
def assemble (c : Config) : Except Failure Mesh := do
  let g ← c.geometry
  let (fabric, ends) ← (Fabric.ofCapacity c.linkCapacity).wire g
  let cells ← (g.ids.zip ends.toList).mapM fun (id, e) =>
    Cell.create g id e c.edgeLength.toNat c.border
  return ⟨g, fabric, (cells.map some).toArray⟩

/-- The entry that records the wiring. -/
def wiringEntry (c : Config) (g : Geometry) : Entry := .wired g.cells g.side c.linkCapacity

/-- The cells of a mesh with valid settings. -/
def create (c : Config) : Except Failure Mesh := do
  c.validate
  assemble c

variable (m : Mesh)

/-- The cell with a number, if it is still there. -/
def cell? (k : Nat) : Option Cell := (m.cells[k]?).join

/-- Polls the step of a cell; an idle cell begins the step of the given iteration. -/
def poll (k : Nat) (iteration : UInt32) : Mesh × Option Cell.Polled :=
  match m.cell? k with
  | none => (m, none)
  | some c =>
    let polled := c.poll iteration m.fabric
    ({ m with fabric := polled.fabric, cells := m.cells.setIfInBounds k (some polled.cell) },
      some polled)

/-- Gives up the step of a cell. -/
def cancel (k : Nat) : Mesh := { m with cells := m.cells.modify k (·.map Cell.cancel) }

/-- Takes a cell out of the mesh. -/
def remove (k : Nat) : Mesh :=
  match m.cell? k with
  | none => m
  | some c =>
    { m with fabric := m.fabric.release c.peer.ends, cells := m.cells.setIfInBounds k none }

end Mesh
end DiffusionMesh

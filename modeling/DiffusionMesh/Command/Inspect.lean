/-
# The command `inspect`

Shows where a cell stands: its place in the mesh, the first row and column of its tile in the
whole grid, and what lies on each of its sides.
-/

import DiffusionMesh.Command.Run

namespace DiffusionMesh
namespace Command

/-- A text with blanks behind it, up to five characters. -/
def padLabel (text : String) : String :=
  text ++ String.ofList (List.replicate (5 - text.length) ' ')

/-- What lies on one side of a cell. -/
def sideFact (border : Border) (neighbors : Compass (Option CellId)) (d : Direction) : Line :=
  let what := match neighbors.get d with
    | some neighbor => neighbor.label
    | none => s!"boundary ({(border.get d).text})"
  fact (padLabel d.name ++ " " ++ what)

/-- The lines about a cell. -/
def cellFacts (c : Config) (cell : CellId) : Except Failure (List Line) := do
  let g ← c.geometry
  let p ← g.position cell
  let neighbors ← g.neighbors cell
  let size := c.edgeLength.toUInt32
  return [heading s!"{cell.label} in a {g.side}x{g.side} mesh",
      fact s!"Position: x={p.x} y={p.y}",
      fact s!"Global origin: row {p.y * size} col {p.x * size}"] ++
    Direction.all.map (sideFact c.border neighbors)

/-- The command `inspect`. -/
def performInspect (s : Surroundings) (o : InspectOptions) : Report :=
  let found := do cellFacts (← effectiveSettings s o.config { cells := o.cells }) ⟨o.cell⟩
  match found with
  | .error cause => { complaint := some (.failure cause) }
  | .ok lines => { lines }

end Command
end DiffusionMesh

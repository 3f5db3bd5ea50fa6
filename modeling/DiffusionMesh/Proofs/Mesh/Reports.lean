/-
# What the cells of a mesh report

A cell that has finished emits the words of its tile of the last field. So the reports of all cells,
in whatever order, name every position of the grid once, and each word holds the byte of the field
there.

Main statements: `Geometry.spots_reports` and `Geometry.temperature_report`.
-/

import DiffusionMesh.Proofs.Mesh.Emission
import DiffusionMesh.Proofs.Mesh.Runs

namespace DiffusionMesh
namespace Geometry

variable {g : Geometry} {S : Nat} {b : Border} {n k : Nat}

/-- **A report holds the bytes of the field.** -/
theorem temperature_report (hside : g.span * S ≤ 4096) (hk : k < g.cells.toNat) {w : ResultWord}
    (hw : w ∈ g.report S b n k) : w.temperature =
      (field (g.span * S) b n (w.row.toNat + 1) (w.column.toNat + 1)).byte := by
  obtain ⟨i, j, hi, hj, hrow, hcolumn, hbyte⟩ :=
    exists_of_mem_resultWords hside hk size_fieldTile hw
  rw [hbyte, hrow, hcolumn, value_fieldTile hi hj]

/-- **The reports of all cells name every position of the grid once**, in whatever order the cells
report. -/
theorem spots_reports (hside : g.span * S ≤ 4096) {order : List Nat} (hnodup : order.Nodup)
    (hmem : ∀ k, k ∈ order ↔ k < g.cells.toNat) :
    ((order.flatMap (g.report S b n)).map ResultWord.spot).Perm (squares (g.span * S)) :=
  spots_words (fun k => g.tile S b k n) hside (fun _ _ => size_fieldTile) hnodup hmem

end Geometry
end DiffusionMesh

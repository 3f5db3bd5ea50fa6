/-
# When a mesh can be made

Making a mesh takes four steps, each of which can fail on its own account: the settings are
validated, the mesh is laid out, its cells are joined, and each cell takes hold of its links.

| step | fails on valid settings |
| --- | --- |
| layout | never |
| joining the cells | when the links would be too long, unless there are none |
| the cells | never, all links go both ways |

`validate` looks at the capacity of the links too, but only for zero. So validated settings make a
mesh but for one case (`Mesh.create_outcome`), and in that case the program is brought down.
-/

import DiffusionMesh.Proofs.Mesh.Blueprint
import DiffusionMesh.Proofs.Mesh.Ports
import DiffusionMesh.Proofs.Mesh.Refinement

namespace DiffusionMesh

namespace Geometry

variable {g : Geometry}

/-- Cells are joined in every mesh but that of a single cell. -/
theorem joins_ne_nil_iff : g.joins ≠ [] ↔ 1 < g.cells := by
  have hlength := g.length_joins
  have hpos := g.span_pos
  rw [UInt32.lt_iff_toNat_lt, UInt32.toNat_one, g.cells_toNat, ← List.length_pos_iff]
  constructor
  · intro h
    have hspan : g.span ≠ 1 := by
      intro hone
      rw [hone] at hlength
      omega
    have htwo : 2 * 2 ≤ g.span * g.span := Nat.mul_le_mul (by omega) (by omega)
    omega
  · intro h
    have hspan : 2 ≤ g.span := by
      by_contra hlt
      rw [show g.span = 1 by omega] at h
      exact absurd h (Nat.lt_irrefl 1)
    have hjoins : 4 * 2 * 1 ≤ 4 * g.span * (g.span - 1) :=
      Nat.mul_le_mul (Nat.mul_le_mul_left 4 hspan) (by omega)
    omega

end Geometry

namespace Fabric

variable {g : Geometry} {capacity : UInt64}

/-- The first join already fails when the links would be too long. -/
theorem wire_eq_error (hcap : greatestCapacity < capacity) (hcells : 1 < g.cells) :
    (ofCapacity capacity).wire g = .error (.linkTooLong capacity) := by
  obtain ⟨p, rest, hjoins⟩ := List.exists_cons_of_ne_nil (Geometry.joins_ne_nil_iff.2 hcells)
  have hfirst : join (ofCapacity capacity, Array.replicate g.cells.toNat Ends.none) p =
      .error (.linkTooLong capacity) := by
    rw [join, connect_eq_error (f := ofCapacity capacity) hcap]
    rfl
  rw [wire_eq, hjoins, List.foldlM_cons, hfirst]
  rfl

/-- Where no link is too long, or there is none, the cells are joined. -/
theorem exists_joins (h : ¬ (1 < g.cells ∧ greatestCapacity < capacity)) :
    ∃ s, g.joins.foldlM join
      (ofCapacity capacity, Array.replicate g.cells.toNat Ends.none) = .ok s := by
  by_cases hcap : greatestCapacity < capacity
  · have hnil : g.joins = [] := by
      by_contra hne
      exact h ⟨Geometry.joins_ne_nil_iff.1 hne, hcap⟩
    rw [hnil]
    exact ⟨_, rfl⟩
  · exact Wiring.exists_joinAll hcap g.proper_joins

end Fabric

namespace Config

variable {c : Config} {cause : Failure}

theorem aborts_of_mem_demands {d : Demand} (h : d ∈ c.demands) : d.failure.aborts = false := by
  simp only [demands, List.mem_append, List.mem_cons, List.not_mem_nil, or_false, List.mem_map] at h
  rcases h with (rfl | rfl | rfl | rfl) | ⟨e, -, rfl⟩ <;> rfl

/-- Settings that are refused do not bring the program down. -/
theorem validate_not_aborts (h : c.validate = .error cause) : cause.aborts = false := by
  obtain ⟨before, d, after, hdemands, -, -, rfl⟩ := c.judged_validate.error_iff.1 h
  exact aborts_of_mem_demands (by rw [hdemands]; exact List.mem_append_right _ List.mem_cons_self)

end Config

namespace Mesh

variable {c : Config} {g : Geometry}

/-- What the settings of a mesh are assembled to, valid or not. -/
theorem assemble_outcome (hg : c.geometry = .ok g) : (assemble c).map Mesh.geometry =
    if 1 < c.cells ∧ Fabric.greatestCapacity < c.linkCapacity then
      .error (.linkTooLong c.linkCapacity)
    else .ok g := by
  rw [← Geometry.ofCells_eq_ok hg]
  split
  · next h =>
    rw [assemble, hg]
    change ((Fabric.ofCapacity c.linkCapacity).wire g >>= _).map _ = _
    rw [Fabric.wire_eq_error h.2 h.1]
    rfl
  · next h =>
    obtain ⟨s, hs⟩ := Fabric.exists_joins h
    rw [assemble_eq hg hs]
    rfl

theorem create_eq (c : Config) : (create c).map Mesh.geometry =
    match c.validate with
    | .error cause => .error cause
    | .ok () =>
      if 1 < c.cells ∧ Fabric.greatestCapacity < c.linkCapacity then
        .error (.linkTooLong c.linkCapacity)
      else c.geometry := by
  cases hvalid : c.validate with
  | error cause =>
    rw [create, hvalid]
    rfl
  | ok =>
    obtain ⟨g, hg, -⟩ := Config.geometry_of_validate hvalid
    rw [create, hvalid]
    change (assemble c).map Mesh.geometry = _
    rw [assemble_outcome hg, hg]

/-- **Validated settings make a mesh, unless its links would be too long**, which brings the program
down. Settings that are not valid give the failure that `validate` names, which does not. -/
theorem create_outcome (c : Config) :
    ((create c).map Mesh.geometry = match c.validate with
      | .error cause => .error cause
      | .ok () =>
        if 1 < c.cells ∧ Fabric.greatestCapacity < c.linkCapacity then
          .error (.linkTooLong c.linkCapacity)
        else c.geometry) ∧
    ∀ cause, create c = .error cause → (cause.aborts = true ↔ c.validate = .ok ()) := by
  refine ⟨create_eq c, fun cause h => ?_⟩
  have hgeometry := create_eq c
  rw [h] at hgeometry
  cases hvalid : c.validate with
  | error other =>
    rw [hvalid] at hgeometry
    obtain rfl : cause = other := Except.error.inj hgeometry
    simp [Config.validate_not_aborts hvalid]
  | ok =>
    obtain ⟨g, hg, -⟩ := Config.geometry_of_validate hvalid
    simp only [hvalid, hg] at hgeometry
    split at hgeometry
    · obtain rfl : cause = .linkTooLong c.linkCapacity := Except.error.inj hgeometry
      simp [Failure.aborts]
    · exact absurd hgeometry nofun

/-- A mesh of four cells passes validation and brings the program down. -/
theorem create_long_links :
    let c : Config := { cells := 4, linkCapacity := 0x2000000000000000 }
    c.validate = .ok () ∧ ∃ cause, (create c).map Mesh.geometry = .error cause ∧
      cause.aborts = true := by
  intro c
  have hvalid : c.validate = .ok () := by decide
  have hg : c.geometry = .ok ⟨4, 1, rfl⟩ := by decide
  have hlong : 1 < c.cells ∧ Fabric.greatestCapacity < c.linkCapacity := by decide
  refine ⟨hvalid, .linkTooLong c.linkCapacity, ?_, rfl⟩
  rw [create, hvalid]
  exact (assemble_outcome hg).trans (if_pos hlong)

end Mesh
end DiffusionMesh

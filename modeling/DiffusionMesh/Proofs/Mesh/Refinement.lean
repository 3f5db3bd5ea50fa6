/-
# A mesh computes what the sequential solver computes

Both the cells of a mesh and the sequential solver hold the field, the cells part by part and each
at its own iteration:

```
   cell k after t iterations ──── tile k of field t
                                        │
   solver after n steps     ────    field n          t = n = N when all cells are finished
```

A cell that finishes holds its part of the last field, its report names the positions of that part,
and the reports of all cells make up the heat map of the solver, in whatever order they come.

Main statements: `Run.Keeps.finishedAs`, `Config.solve_eq` and `Config.refines_sequential`.
-/

import DiffusionMesh.Proofs.Mesh.Reports
import DiffusionMesh.Proofs.Mesh.Settling
import DiffusionMesh.Proofs.Settings.Validation

namespace DiffusionMesh

/-- The bytes of the solver are those of the field. -/
theorem Solver.bytes_run (L : Nat) (b : Border) (n : Nat) : (run n (create L b)).bytes =
    Array.ofFn fun k : Fin (L * L) => (field L b n (k.val / L + 1) (k.val % L + 1)).byte := by
  have hside := side_run L b n
  refine Array.ext ?_ fun k hk hk' => ?_
  · rw [bytes, Array.size_ofFn, Array.size_ofFn, hside]
  · rw [Array.size_ofFn] at hk'
    have hpos : 0 < L := Nat.pos_of_mul_pos_left (Nat.zero_lt_of_lt hk')
    simp only [bytes, Array.getElem_ofFn, hside]
    rw [value_run L b n (Nat.div_lt_of_lt_mul hk') (Nat.mod_lt _ hpos)]

/-- **A tile holds what the solver holds at its place.** -/
theorem Geometry.get?_tile {g : Geometry} {S k i j : Nat} (b : Border) (n : Nat)
    (hk : k < g.cells.toNat) (hi : i < S) (hj : j < S) : ∃ v,
      (g.tile S b k n).get? i j = some v ∧
      (Solver.run n (.create (g.span * S) b)).get? (g.row k * S + i) (g.column k * S + j) =
        some v := by
  have hrow := row_mul_le S hk
  have hcolumn := g.column_mul_le S k
  exact ⟨_, Tile.get?_ofFn _ hi hj, Solver.get?_run _ b n (by omega) (by omega)⟩

namespace Run

/-- Polling the workers of a schedule in turn has finished a cell, which was then as given. -/
def FinishedAs (r : Run) (schedule : List Nat) (k : Nat) (cell : Cell) : Prop :=
  ∃ first rest w, schedule = first ++ k :: rest ∧ (r.after first).worker? k = some w ∧
    (w.poll (r.after first).fabric).verdict = .finished () ∧
    (w.poll (r.after first).fabric).worker.cell = cell

variable {r : Run} {k : Nat} {w : Worker} {g : Geometry} {S : Nat} {b : Border} {N : UInt32}
  {ends : Nat → Ends}

/-- A cell that has lost its worker has finished. -/
theorem Keeps.exists_finishedAs (h : r.Keeps g S b N ends) {schedule : List Nat}
    (hw : r.worker? k = some w) (hdone : (r.after schedule).worker? k = none) :
    ∃ cell, r.FinishedAs schedule k cell := by
  induction schedule generalizing r w with
  | nil => exact nomatch hw.symm.trans hdone
  | cons j rest ih =>
    have hlater : ∀ v, (r.poll j).1.worker? k = some v →
        ∃ cell, r.FinishedAs (j :: rest) k cell := by
      intro v hv
      obtain ⟨cell, first, rest', w', rfl, hw', hverdict, hcell⟩ := ih (h.poll j) hv hdone
      exact ⟨cell, j :: first, rest', w', rfl, hw', hverdict, hcell⟩
    cases hv : (r.poll j).1.worker? k with
    | some v => exact hlater v hv
    | none =>
      -- only a poll of the worker itself takes it away, and only when it finishes
      have hjk : k = j := Classical.byContradiction fun hne =>
        nomatch (hw.symm.trans (h.worker?_poll_of_ne hne).symm).trans hv
      subst hjk
      obtain ⟨n, hadvanced⟩ := h.advanced hw
      rcases hadvanced.verdict with ⟨hwaiting, -⟩ | ⟨hfinished, -⟩
      · rw [poll_of_waiting hw hwaiting, worker?_set (lt_of_worker? hw), if_pos rfl] at hv
        cases hv
      · exact ⟨_, [], rest, w, rfl, hw, hfinished, rfl⟩

/-- **A cell that finishes holds its part of the last field.** -/
theorem Keeps.finishedAs (h : r.Keeps g S b N ends) {schedule : List Nat} {cell : Cell}
    (hcell : r.FinishedAs schedule k cell) :
    k < g.cells.toNat ∧ cell.OnField g S b k N.toNat := by
  obtain ⟨first, rest, w, rfl, hw, hfinished, rfl⟩ := hcell
  have hkeeps := h.after first
  obtain ⟨n, hadvanced⟩ := hkeeps.advanced hw
  rcases hadvanced.verdict with ⟨hwaiting, -⟩ | ⟨-, rfl, -⟩
  · exact nomatch hwaiting.symm.trans hfinished
  · exact ⟨hkeeps.lt hw, hadvanced.onField⟩

/-- **The words of a finished run make up the heat map of the field**, in whatever order. -/
theorem Keeps.ofWords_eq (h : r.Keeps g S b N ends) (hside : g.span * S ≤ 4096)
    (hdone : ∀ k, r.worker? k = none) {words : List ResultWord}
    (hwords : words.Perm r.words.toList) :
    HeatMap.ofWords (g.span * S) words = .ok ⟨g.span * S,
      Array.ofFn fun k : Fin (g.span * S * (g.span * S)) => (field (g.span * S) b N.toNat
        (k.val / (g.span * S) + 1) (k.val % (g.span * S) + 1)).byte, Array.size_ofFn⟩ := by
  obtain ⟨order, hnodup, hmem, hreports⟩ := h.reported
  rw [hreports] at hwords
  have hcells : ∀ k, k ∈ order ↔ k < g.cells.toNat := fun k =>
    (hmem k).trans (and_iff_left (hdone k))
  refine HeatMap.ofWords_eq (f := fun i j =>
    (field (g.span * S) b N.toNat (i + 1) (j + 1)).byte) hside
    ((hwords.map ResultWord.spot).trans (Geometry.spots_reports hside hnodup hcells)) fun w hw => ?_
  obtain ⟨k, hk, hw⟩ := List.mem_flatMap.1 (hwords.mem_iff.1 hw)
  exact Geometry.temperature_report hside ((hcells k).1 hk) hw

/-- What a run that keeps to its plan collects is no failure. -/
theorem Keeps.failure_pollAll (h : r.Keeps g S b N ends) (schedule : List Nat)
    (seen : Config.Collected) :
    (pollAll Config.Collected.add schedule seen r).1.failure = seen.failure := by
  induction schedule generalizing r seen with
  | nil => rfl
  | cons k rest ih =>
    change (pollAll Config.Collected.add rest
      ((r.poll k).2.elim seen (Config.Collected.add seen)) (r.poll k).1).1.failure = _
    rw [ih (h.poll k)]
    cases hevent : (r.poll k).2 with
    | none => rfl
    | some event =>
      cases hverdict : event.verdict with
      | finished report => simp only [Option.elim_some, Config.Collected.add, hverdict]
      | failed cause => exact absurd hverdict (h.verdict_ne hevent cause)
      | waiting => simp only [Option.elim_some, Config.Collected.add, hverdict]

/-- No worker has more iterations to do than those of a mesh about to run. -/
theorem le_longest_ofMesh {c : Config} {m : Mesh} (h : Mesh.assemble c = .ok m) (N : UInt32) :
    N.toNat ≤ (ofMesh m N).longest := by
  obtain ⟨ends, -, hcell⟩ := keeps_ofMesh h N
  have hpos : 0 < m.geometry.cells.toNat := by
    rw [m.geometry.cells_toNat]
    exact Nat.mul_pos m.geometry.span_pos m.geometry.span_pos
  have hfirst : (ofMesh m N).worker? 0 = some (.ofCell
      (m.geometry.outsetCell c.edgeLength.toNat c.border ends 0) N) := by
    rw [worker?_ofMesh, hcell, if_pos hpos]
    rfl
  exact left_le_longest hfirst

/-- Every mesh has a schedule that finishes its cells. -/
theorem exists_done {c : Config} {m : Mesh} (h : Mesh.assemble c = .ok m) (N : UInt32) :
    ∃ schedule, ∀ k, ((ofMesh m N).after schedule).worker? k = none := by
  obtain ⟨ends, hinitial, -⟩ := keeps_ofMesh h N
  obtain ⟨more, -, hdone⟩ := hinitial.settle (fun _ _ => ()) (le_longest_ofMesh h N) [] ()
  exact ⟨_, hdone⟩

end Run

namespace Config

variable {c : Config}

/-- Valid settings are those of a mesh whose grid result words can address. -/
theorem geometry_of_validate (h : c.validate = .ok ()) :
    ∃ g, c.geometry = .ok g ∧ c.globalSide g ≤ 4096 := by
  obtain ⟨hcells, -, hside, -⟩ := validate_eq_ok_iff.1 h
  obtain ⟨g, hg⟩ := Geometry.exists_ofCells_iff.2 hcells
  exact ⟨g, hg, globalSide_eq_fullSide hg ▸ hside⟩

theorem globalSide_eq (c : Config) (g : Geometry) :
    c.globalSide g = g.span * c.edgeLength.toNat := by
  rw [globalSide, g.side_toNat]

/-- The heat map of the field after the last iteration. -/
def fieldMap (c : Config) (g : Geometry) : HeatMap where
  side := g.span * c.edgeLength.toNat
  bytes := Array.ofFn fun k : Fin (g.span * c.edgeLength.toNat * (g.span * c.edgeLength.toNat)) =>
    (field (g.span * c.edgeLength.toNat) c.border c.iterations.toNat
      (k.val / (g.span * c.edgeLength.toNat) + 1) (k.val % (g.span * c.edgeLength.toNat) + 1)).byte
  bytes_size := Array.size_ofFn

/-- **The sequential solver finds the heat map of the field.** -/
theorem solve_eq (hvalid : c.validate = .ok ()) {g : Geometry} (hg : c.geometry = .ok g) :
    c.solve = .ok (c.fieldMap g) := by
  have hbytes := Solver.bytes_run (g.span * c.edgeLength.toNat) c.border c.iterations.toNat
  rw [solve, hvalid, hg]
  simp only [bind, Except.bind, globalSide_eq, HeatMap.ofBytes, hbytes, Array.size_ofFn, dite_true]
  rfl

/-- A mesh with valid settings runs to its end under every schedule, and its words make up the heat
map of the field. -/
theorem runMesh_eq (hvalid : c.validate = .ok ()) {m : Mesh} (hm : Mesh.assemble c = .ok m)
    (schedule : List Nat) :
    ∃ outcome, c.runMesh schedule = .ok outcome ∧ outcome.heatMap = c.fieldMap m.geometry := by
  obtain ⟨g, hg, hside⟩ := geometry_of_validate hvalid
  obtain rfl := Except.ok.inj (hg.symm.trans (Mesh.assembled hm).1)
  rw [globalSide_eq] at hside
  obtain ⟨ends, hinitial, -⟩ := Run.keeps_ofMesh hm c.iterations
  obtain ⟨more, hsettle, hdone⟩ := hinitial.settle Collected.add
    (Run.le_longest_ofMesh hm c.iterations) schedule {}
  have hfailure := hinitial.failure_pollAll (schedule ++ more) {}
  have hrun := Run.pollAll_snd Collected.add (schedule ++ more) {} (Run.ofMesh m c.iterations)
  have hwords := (hinitial.after (schedule ++ more)).ofWords_eq hside hdone (List.Perm.refl _)
  rw [runMesh, Mesh.create, hvalid]
  simp only [bind, Except.bind, hm, hsettle, hfailure, hrun, globalSide_eq, hwords]
  exact ⟨_, rfl, rfl⟩

/-- **A mesh refines the sequential solver.** With valid settings and any schedule, no worker fails;
a cell that finishes holds, position by position, what the solver holds there after as many steps;
when all cells have finished, their words make up the solver's heat map, in whatever order; and a
run that is compared with the solver passes. -/
theorem refines_sequential (hvalid : c.validate = .ok ())
    (hcapacity : c.linkCapacity ≤ Fabric.greatestCapacity) :
    ∃ m expected, Mesh.create c = .ok m ∧ c.solve = .ok expected ∧
      (∀ schedule : List Nat,
        let r := (Run.ofMesh m c.iterations).after schedule
        (∀ k event, (r.poll k).2 = some event → ∀ cause, event.verdict ≠ .failed cause) ∧
        (∀ k start cell, m.cell? k = some start →
          (Run.ofMesh m c.iterations).FinishedAs schedule k cell →
          cell.position = start.position ∧
          ∀ i j, i < c.edgeLength.toNat → j < c.edgeLength.toNat → ∃ v,
            cell.state.current.get? i j = some v ∧
            (Solver.run c.iterations.toNat (.create (c.globalSide m.geometry) c.border)).get?
              (start.position.y.toNat * c.edgeLength.toNat + i)
              (start.position.x.toNat * c.edgeLength.toNat + j) = some v) ∧
        ((∀ k, r.worker? k = none) →
          (∀ k, k < m.geometry.cells.toNat → ∃ start cell, m.cell? k = some start ∧
            (Run.ofMesh m c.iterations).FinishedAs schedule k cell) ∧
          ∀ words, words.Perm r.words.toList →
            HeatMap.ofWords (c.globalSide m.geometry) words = .ok expected)) ∧
      ∀ schedule, ∃ outcome, c.runVerified schedule = .ok outcome ∧
        outcome.heatMap = expected := by
  obtain ⟨g, hg, hside⟩ := geometry_of_validate hvalid
  obtain ⟨m, hm⟩ := Mesh.exists_assemble hg hcapacity
  obtain rfl := Except.ok.inj (hg.symm.trans (Mesh.assembled hm).1)
  have hsolve := solve_eq hvalid hg
  obtain ⟨ends, hinitial, hcell⟩ := Run.keeps_ofMesh hm c.iterations
  refine ⟨m, c.fieldMap m.geometry, ?_, hsolve, fun schedule => ⟨?_, ?_, fun hdone => ⟨?_, ?_⟩⟩, ?_⟩
  · rw [Mesh.create, hvalid]
    exact hm
  · exact fun k event hevent => (hinitial.after schedule).verdict_ne hevent
  · intro k start cell hstart hfinished
    obtain ⟨hk, hfield⟩ := hinitial.finishedAs hfinished
    rw [hcell, if_pos hk] at hstart
    obtain rfl := Option.some.inj hstart
    refine ⟨hfield.position, fun i j hi hj => ?_⟩
    rw [hfield.current, globalSide_eq]
    simp only [Geometry.outsetCell, Geometry.toNat_coordinate (m.geometry.row_lt hk),
      Geometry.toNat_coordinate (m.geometry.column_lt k)]
    exact Geometry.get?_tile c.border c.iterations.toNat hk hi hj
  · intro k hk
    have hstart := hcell k
    rw [if_pos hk] at hstart
    have hworker := Run.worker?_ofMesh m c.iterations k
    rw [hstart, Option.map_some] at hworker
    obtain ⟨cell, hfinished⟩ := hinitial.exists_finishedAs hworker (hdone k)
    exact ⟨_, cell, hstart, hfinished⟩
  · rw [globalSide_eq] at hside ⊢
    exact fun words hwords => (hinitial.after schedule).ofWords_eq hside hdone hwords
  · intro schedule
    obtain ⟨outcome, hrun, hmap⟩ := runMesh_eq hvalid hm schedule
    refine ⟨outcome, ?_, hmap⟩
    have hcheck : outcome.heatMap.checkAgainst (c.fieldMap m.geometry) = .ok () := by
      rw [hmap, HeatMap.checkAgainst, HeatMap.diff_self]
    rw [runVerified, hsolve]
    simp only [bind, Except.bind, hrun, hcheck]
    rfl

/-- Four cells with tiles of side two agree with the solver after five iterations. -/
theorem refines_sequential_square :
    let c : Config := { cells := 4, messageWords := 3, iterations := 5 }
    ∃ expected, c.solve = .ok expected ∧
      ∀ schedule, ∃ outcome, c.runVerified schedule = .ok outcome ∧ outcome.heatMap = expected := by
  intro c
  have hvalid : c.validate = .ok () := by decide
  have hcapacity : c.linkCapacity ≤ Fabric.greatestCapacity := by decide
  obtain ⟨m, expected, -, hsolve, -, hruns⟩ := refines_sequential hvalid hcapacity
  exact ⟨expected, hsolve, hruns⟩

end Config
end DiffusionMesh

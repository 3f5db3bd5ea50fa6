/-
# Valid settings and the range of temperatures

Validation accepts sides that fit the whole degrees of a temperature. That alone does not keep the
sums of a step from wrapping, which happens by design and gives values beyond every side. What it
gives is this:

| sides | temperatures and steps |
| --- | --- |
| accepted | between the coldest and the hottest as long as no sum has wrapped |
| from -8192 to 8191 degrees | always, and no addition ever wraps |
| all at 8192 degrees | out of bounds after a step |

The same holds of the sequential solver, of cells that go on step by step, and of the cells of a run.

Main statement: `Config.bounded_while_sums_fit`.
-/

import DiffusionMesh.Proofs.Mesh.Construction
import DiffusionMesh.Proofs.Mesh.March
import DiffusionMesh.Proofs.Tile.Range

namespace DiffusionMesh
namespace Config

open Temperature (Between)

variable {c : Config} {g : Geometry}

/-- The coldest of zero and the four sides, in whole degrees. -/
def coldest (c : Config) : Int :=
  min 0 (min c.boundary.north.toInt (min c.boundary.south.toInt
    (min c.boundary.east.toInt c.boundary.west.toInt)))

/-- The hottest of zero and the four sides, in whole degrees. -/
def hottest (c : Config) : Int :=
  max 0 (max c.boundary.north.toInt (max c.boundary.south.toInt
    (max c.boundary.east.toInt c.boundary.west.toInt)))

theorem coldest_le (c : Config) (d : Direction) : c.coldest ≤ (c.boundary.get d).toInt := by
  cases d <;> simp only [coldest, Compass.get] <;> omega

theorem le_hottest (c : Config) (d : Direction) : (c.boundary.get d).toInt ≤ c.hottest := by
  cases d <;> simp only [hottest, Compass.get] <;> omega

/-- Each side leaves room for the sum of four temperatures. -/
def Moderate (c : Config) : Prop :=
  ∀ d, -8192 ≤ (c.boundary.get d).toInt ∧ (c.boundary.get d).toInt ≤ 8191

theorem Moderate.coldest (h : c.Moderate) : -8192 ≤ c.coldest := by
  have hnorth := (h .north).1
  have hsouth := (h .south).1
  have heast := (h .east).1
  have hwest := (h .west).1
  simp only [Compass.get] at hnorth hsouth heast hwest
  rw [Config.coldest]
  omega

theorem Moderate.hottest (h : c.Moderate) : c.hottest ≤ 8191 := by
  have hnorth := (h .north).2
  have hsouth := (h .south).2
  have heast := (h .east).2
  have hwest := (h .west).2
  simp only [Compass.get] at hnorth hsouth heast hwest
  rw [Config.hottest]
  omega

/-- Sides that are accepted fit a temperature. -/
theorem fits_of_validate (h : c.validate = .ok ()) (d : Direction) :
    -32768 ≤ (c.boundary.get d).toInt ∧ (c.boundary.get d).toInt ≤ 32767 :=
  (validate_eq_ok_iff.1 h).2.2.2.2 d

/-- The temperatures beyond the sides lie within the bounds. -/
theorem border_between (h : c.validate = .ok ()) (d : Direction) :
    Between c.coldest c.hottest (c.border.get d) := by
  have hlo := c.coldest_le d
  have hhi := c.le_hottest d
  rw [border, Compass.get_map, Between, Temperature.toInt_ofDegrees (fits_of_validate h d)]
  omega

/-! ### The field of valid settings -/

theorem coldest_le_zero (c : Config) : c.coldest ≤ 0 := by
  rw [coldest]
  omega

theorem zero_le_hottest (c : Config) : 0 ≤ c.hottest := by
  rw [hottest]
  omega

/-- As long as no sum has wrapped, the field stays within the bounds. -/
theorem field_between_of_sumsFit (h : c.validate = .ok ()) {L n : Nat}
    (hfits : ∀ m, m < n → (Solver.run m (.create L c.border)).SumsFit) (row column : Nat) :
    Between c.coldest c.hottest (field L c.border n row column) :=
  field_between c.coldest_le_zero c.zero_le_hottest (border_between h)
    (fun m hm => (Solver.sumsFit_run_iff L c.border m).1 (hfits m hm)) row column

theorem Moderate.field_noWrap (hc : c.Moderate) (h : c.validate = .ok ()) (L n row column : Nat) :
    Temperature.NoWrap (surroundings L c.border n row column) :=
  DiffusionMesh.field_noWrap c.coldest_le_zero c.zero_le_hottest hc.coldest hc.hottest
    (border_between h) n row column

end Config

/-! ### Cells on the field -/

/-- The temperatures around a position of an idle cell are those of the field. -/
theorem March.Keeps.neighbor_eq {g : Geometry} {S rounds k : Nat} {b : Border}
    {ends : Nat → Ends} {s : March} {c : Cell} (h : s.Keeps g S b rounds ends)
    (hc : s.mesh.cell? k = some c) (hidle : c.peer.round = none) {i j : Nat} (hi : i < S)
    (hj : j < S) : c.state.neighbor i j = surroundings (g.span * S) b (s.done k)
      (g.row k * S + i + 1) (g.column k * S + j + 1) := by
  obtain ⟨hk, hfield⟩ := h.onField hc
  obtain ⟨-, hsound⟩ := h.concord.station (crew_of_cell hc)
  have habuts : Abuts S (g.span * S) b (s.done k) (g.row k * S) (g.column k * S)
      c.state.incoming := Geometry.abuts_heard hk fun d => by
    have hincoming := hsound.incoming d
    rwa [Station.appliedOn_of_idle hidle] at hincoming
  funext d
  exact neighbor_eq_field hfield.current habuts hi hj d

namespace Config

open Temperature (Between)

variable {c : Config} {g : Geometry} {m : Mesh} {k : Nat} {cell : Cell}

/-- The tiles of the field stay within the bounds as long as no sum of the solver has wrapped. -/
theorem tile_within (hvalid : c.validate = .ok ()) {n : Nat} (hfits : ∀ j, j < n →
      (Solver.run j (.create (c.globalSide g) c.border)).SumsFit) :
    (g.tile c.edgeLength.toNat c.border k n).Within c.coldest c.hottest := by
  rw [c.globalSide_eq g] at hfits
  exact Tile.within_field (field_between_of_sumsFit hvalid hfits)

/-- The cells of a march stay within the bounds. -/
theorem march_within (hvalid : c.validate = .ok ()) (hm : Mesh.assemble c = .ok m)
    {schedule : List Nat} (hcell : ((March.ofMesh m).after schedule).mesh.cell? k = some cell)
    (hfits : ∀ n, n < ((March.ofMesh m).after schedule).done k →
      (Solver.run n (.create (c.globalSide m.geometry) c.border)).SumsFit) :
    cell.state.current.Within c.coldest c.hottest := by
  obtain ⟨ends, hkeeps⟩ := March.keeps_of_assemble hm schedule
  rw [(hkeeps.onField hcell).2.current]
  exact tile_within hvalid hfits

/-- With moderate sides the cells of a march take their steps exactly. -/
theorem Moderate.march_stepsExactly (hc : c.Moderate) (hvalid : c.validate = .ok ())
    (hm : Mesh.assemble c = .ok m) {schedule : List Nat}
    (hcell : ((March.ofMesh m).after schedule).mesh.cell? k = some cell)
    (hidle : cell.peer.round = none) : cell.state.StepsExactly := by
  obtain ⟨ends, hkeeps⟩ := March.keeps_of_assemble hm schedule
  have hsize : cell.state.size = c.edgeLength.toNat :=
    congrArg Tile.size (hkeeps.onField hcell).2.current
  refine LocalState.stepsExactly fun i j hi hj => ?_
  rw [hkeeps.neighbor_eq hcell hidle (hsize ▸ hi) (hsize ▸ hj)]
  exact hc.field_noWrap hvalid _ _ _ _

/-- The cells of a run finish within the bounds. -/
theorem run_within (hvalid : c.validate = .ok ()) (hm : Mesh.assemble c = .ok m) {N : UInt32}
    {schedule : List Nat} (hfinished : (Run.ofMesh m N).FinishedAs schedule k cell)
    (hfits : ∀ n, n < N.toNat →
      (Solver.run n (.create (c.globalSide m.geometry) c.border)).SumsFit) :
    cell.state.current.Within c.coldest c.hottest := by
  obtain ⟨ends, hkeeps, -⟩ := Run.keeps_ofMesh hm N
  rw [(hkeeps.finishedAs hfinished).2.current]
  exact tile_within hvalid hfits

/-- **As long as no sum has wrapped, valid settings keep all temperatures between the coldest and
the hottest of zero and the four sides**, and each step takes the floors of means. Sides from -8192
to 8191 degrees never make a sum wrap. -/
theorem bounded_while_sums_fit (hvalid : c.validate = .ok ()) (hg : c.geometry = .ok g) :
    let solved (n : Nat) := Solver.run n (.create (c.globalSide g) c.border)
    (∀ n, (solved n).Floors ↔ (solved n).SumsFit) ∧
    (∀ n, (∀ j, j < n → (solved j).SumsFit) → (solved n).Within c.coldest c.hottest) ∧
    (c.Moderate → ∀ n i j, i < c.globalSide g → j < c.globalSide g →
      Temperature.NoWrap ((solved n).around i j)) ∧
    ∀ m, Mesh.assemble c = .ok m →
      (∀ schedule k cell, ((March.ofMesh m).after schedule).mesh.cell? k = some cell →
        ((∀ n, n < ((March.ofMesh m).after schedule).done k → (solved n).SumsFit) →
          cell.state.current.Within c.coldest c.hottest) ∧
        (c.Moderate → cell.peer.round = none → cell.state.StepsExactly)) ∧
      ∀ N schedule k cell, (Run.ofMesh m N).FinishedAs schedule k cell →
        (∀ n, n < N.toNat → (solved n).SumsFit) →
        cell.state.current.Within c.coldest c.hottest := by
  intro solved
  refine ⟨fun n => Solver.floors_run_iff _ _ n,
    fun n hfits => Solver.within_run (field_between_of_sumsFit hvalid hfits),
    fun hc n i j hi hj => ?_, fun m hm => ?_⟩
  · rw [Solver.around_run _ _ n hi hj]
    exact hc.field_noWrap hvalid _ _ _ _
  · obtain ⟨hg', -⟩ := Mesh.assembled hm
    obtain rfl := Except.ok.inj (hg.symm.trans hg')
    exact ⟨fun schedule k cell hcell => ⟨march_within hvalid hm hcell,
        fun hc => hc.march_stepsExactly hvalid hm hcell⟩,
      fun N schedule k cell => run_within hvalid hm⟩

/-- The default sides keep a grid of eight by eight between 0 and 255 degrees, however many steps are
taken, and all of them are exact. -/
theorem bounded_while_sums_fit_square :
    let c : Config := { cells := 4, messageWords := 5 }
    ∀ n, (Solver.run n (.create 8 c.border)).Within 0 255 ∧
      (Solver.run n (.create 8 c.border)).Floors := by
  intro c n
  have hvalid : c.validate = .ok () := by decide
  have hg : c.geometry = .ok ⟨4, 1, rfl⟩ := by decide
  have hmoderate : c.Moderate := by
    intro d
    cases d <;> decide
  have hside : c.globalSide ⟨4, 1, rfl⟩ = 8 := by decide
  obtain ⟨hfloors, hwithin, hnoWrap, -⟩ := bounded_while_sums_fit hvalid hg
  simp only [hside] at hfloors hwithin hnoWrap
  have hfits : ∀ n, (Solver.run n (.create 8 c.border)).SumsFit := by
    intro n i j hi hj
    rw [Solver.side_run] at hi hj
    exact (hnoWrap hmoderate n i j hi hj).four
  exact ⟨hwithin n fun j _ => hfits j, (hfloors n).2 (hfits n)⟩

/-- **Four sides of 8192 degrees are accepted, and their sum wraps**: a single position between them
gets to -8192 degrees after one step. -/
theorem wraps_between_accepted_sides :
    let c : Config := { cells := 1, messageWords := 2, boundary := .const 8192 }
    let g : Geometry := ⟨1, 0, rfl⟩
    c.validate = .ok () ∧ c.geometry = .ok g ∧ ∃ t,
      (Solver.run 1 (.create (c.globalSide g) c.border)).get? 0 0 = some t ∧
      t = .ofDegrees (-8192) ∧ ¬ Between c.coldest c.hottest t := by
  intro c g
  refine ⟨by decide, by decide, _, Solver.get?_run _ c.border 1 (by decide) (by decide), ?_, ?_⟩
  · decide
  · rw [show field (c.globalSide g) c.border 1 (0 + 1) (0 + 1) = .ofDegrees (-8192) by decide]
    rw [Between]
    decide

end Config
end DiffusionMesh

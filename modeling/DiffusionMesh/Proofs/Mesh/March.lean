/-
# Cells that go on step by step

A march takes the cells of a mesh through their iterations one poll at a time, without end: a poll
of a cell goes on with the step that comes after those it has completed.

```
   cell k, n steps completed ──poll──▶ cell k, n or n + 1 steps completed
```

A run of a mesh does the same with a last iteration, but shows a cell only where its worker has to
wait. A march shows it after every step.

Main statement: `Keeps.after`, whatever the schedule, each cell is on the field.
-/

import DiffusionMesh.Proofs.Mesh.Accounts
import DiffusionMesh.Proofs.Mesh.Runs

namespace DiffusionMesh

/-- A mesh and the number of steps that each of its cells has completed. -/
structure March where
  mesh : Mesh
  done : Nat → Nat

namespace March

/-- A mesh whose cells have completed no step. -/
def ofMesh (m : Mesh) : March := ⟨m, fun _ => 0⟩

/-- Polls the step of a cell that comes after those it has completed. -/
def poll (s : March) (k : Nat) : March :=
  match s.mesh.poll k (UInt32.ofNat (s.done k)) with
  | (m, none) => ⟨m, s.done⟩
  | (m, some polled) =>
    match polled.verdict with
    | .finished _ => ⟨m, Function.update s.done k (s.done k + 1)⟩
    | _ => ⟨m, s.done⟩

/-- The march after the cells of a schedule have been polled in turn. -/
def after (schedule : List Nat) (s : March) : March := schedule.foldl poll s

/-- The stations of the cells. -/
def crew (s : March) : Crew := fun k => (s.mesh.cell? k).map (·.station (s.done k))

/-- A march that has kept to the plan of its mesh. -/
structure Keeps (g : Geometry) (S : Nat) (b : Border) (rounds : Nat) (ends : Nat → Ends)
    (s : March) : Prop where
  concord : Concord (g.plan S b rounds) ends s.mesh.fabric s.crew
  onField : ∀ {k c}, s.mesh.cell? k = some c →
    k < g.cells.toNat ∧ c.OnField g S b k (s.done k)

variable {g : Geometry} {S : Nat} {b : Border} {rounds : Nat} {ends : Nat → Ends} {s : March}
  {k : Nat}

theorem crew_of_cell {c : Cell} (h : s.mesh.cell? k = some c) :
    s.crew k = some (c.station (s.done k)) := by
  rw [crew, h]
  rfl

/-- The march after a poll of a cell that has completed `n` steps now. -/
def put (s : March) (k : Nat) (p : Cell.Polled) (n : Nat) : March where
  mesh := { s.mesh with fabric := p.fabric, cells := s.mesh.cells.setIfInBounds k (some p.cell) }
  done := Function.update s.done k n

section

variable {c : Cell} {p : Cell.Polled} {n j : Nat}

theorem put_self (h : s.mesh.cell? k = some c) :
    (s.put k p n).mesh.cell? k = some p.cell ∧ (s.put k p n).done k = n :=
  ⟨(Mesh.cell?_set h _ _ k).trans (if_pos rfl), Function.update_self ..⟩

theorem put_of_ne (h : s.mesh.cell? k = some c) (hj : j ≠ k) :
    (s.put k p n).mesh.cell? j = s.mesh.cell? j ∧ (s.put k p n).done j = s.done j :=
  ⟨(Mesh.cell?_set h _ _ j).trans (if_neg hj), Function.update_of_ne hj ..⟩

theorem crew_put (h : s.mesh.cell? k = some c) :
    (s.put k p n).crew = Function.update s.crew k (some (p.cell.station n)) := by
  funext j
  by_cases hj : j = k
  · subst hj
    obtain ⟨hcell, hdone⟩ := put_self (p := p) (n := n) h
    rw [crew, hcell, hdone, Function.update_self]
    rfl
  · obtain ⟨hcell, hdone⟩ := put_of_ne (p := p) (n := n) h hj
    rw [crew, hcell, hdone, Function.update_of_ne hj, crew]

theorem poll_of_absent (h : s.mesh.cell? k = none) : s.poll k = s := by
  simp only [poll, Mesh.poll, h]

theorem poll_of_waiting (h : s.mesh.cell? k = some c)
    (hp : (c.poll (UInt32.ofNat (s.done k)) s.mesh.fabric).verdict = .waiting) :
    s.poll k = s.put k (c.poll (UInt32.ofNat (s.done k)) s.mesh.fabric) (s.done k) := by
  simp only [poll, Mesh.poll, put, h, hp, Function.update_eq_self]

theorem poll_of_finished {early : Nat} (h : s.mesh.cell? k = some c)
    (hp : (c.poll (UInt32.ofNat (s.done k)) s.mesh.fabric).verdict = .finished early) :
    s.poll k = s.put k (c.poll (UInt32.ofNat (s.done k)) s.mesh.fabric) (s.done k + 1) := by
  simp only [poll, Mesh.poll, put, h, hp]

end

/-- **A poll keeps a march to its plan.** -/
theorem Keeps.poll (h : s.Keeps g S b rounds ends) (hlt : s.done k < rounds) :
    (s.poll k).Keeps g S b rounds ends := by
  cases hc : s.mesh.cell? k with
  | none =>
    rw [poll_of_absent hc]
    exact h
  | some c =>
    obtain ⟨hk, hfield⟩ := h.onField hc
    obtain ⟨n, hstepped⟩ := hfield.poll hk h.concord (crew_of_cell hc) hlt
    have hpoll : s.poll k = s.put k (c.poll (UInt32.ofNat (s.done k)) s.mesh.fabric) n := by
      rcases hstepped.verdict with ⟨hwaiting, rfl, -⟩ | ⟨⟨early, hfinished⟩, rfl, -⟩
      · exact poll_of_waiting hc hwaiting
      · exact poll_of_finished hc hfinished
    rw [hpoll]
    refine ⟨?_, fun {j c'} hc' => ?_⟩
    · rw [crew_put hc]
      exact hstepped.concord
    · by_cases hj : j = k
      · subst hj
        obtain ⟨hcell, hdone⟩ := put_self hc
        obtain rfl := Option.some.inj (hcell.symm.trans hc')
        rw [hdone]
        exact ⟨hk, hstepped.onField⟩
      · obtain ⟨hcell, hdone⟩ := put_of_ne hc hj
        rw [hdone]
        exact h.onField (hcell.symm.trans hc')

/-- A poll completes one step at most. -/
theorem done_poll_le (s : March) (k j : Nat) : (s.poll k).done j ≤ s.done j + 1 := by
  have hone : Function.update s.done k (s.done k + 1) j ≤ s.done j + 1 := by
    by_cases hj : j = k
    · subst hj
      rw [Function.update_self]
    · rw [Function.update_of_ne hj]
      exact Nat.le_succ _
  unfold poll
  split
  · exact Nat.le_succ _
  · split
    · exact hone
    · exact Nat.le_succ _

/-- **A march keeps to its plan under every schedule** that leaves rounds to do. -/
theorem Keeps.after (h : s.Keeps g S b rounds ends) {schedule : List Nat}
    (hrounds : ∀ j, s.done j + schedule.length ≤ rounds) :
    (s.after schedule).Keeps g S b rounds ends := by
  induction schedule generalizing s with
  | nil => exact h
  | cons k rest ih =>
    simp only [List.length_cons] at hrounds
    have hk := hrounds k
    refine ih (h.poll (by omega)) fun j => ?_
    have hj := hrounds j
    have hpoll := s.done_poll_le k j
    omega

/-- **The cells of an assembled mesh are on the field after every schedule.** -/
theorem keeps_of_assemble {c : Config} {m : Mesh} (h : Mesh.assemble c = .ok m)
    (schedule : List Nat) : ∃ ends, ((ofMesh m).after schedule).Keeps m.geometry
      c.edgeLength.toNat c.border schedule.length ends := by
  obtain ⟨-, ends, houtset⟩ := Mesh.assembled h
  refine ⟨ends, Keeps.after ⟨Run.concord_of_outset houtset _, fun {k cell} hcell => ?_⟩
    fun j => Nat.le_of_eq (Nat.zero_add _)⟩
  have hmesh : m.cell? k = some cell := hcell
  rw [houtset.cells] at hmesh
  split at hmesh
  · next hk =>
    obtain rfl := Option.some.inj hmesh
    exact ⟨hk, Geometry.onField_outsetCell _ _ _ hk⟩
  · cases hmesh

end March
end DiffusionMesh

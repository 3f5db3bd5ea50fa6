/-
# Runs of a mesh

A run is polled by a schedule, any list of cell numbers. Whatever the schedule, the run keeps to the
plan of its mesh:

| part of a run | what is kept |
| --- | --- |
| links and workers | in concord with the plan |
| a worker with `left` iterations to do | its cell is on the field after `N - left` steps |
| result words | those of the finished cells' parts of the last field, cell by cell |

Main statements: `Keeps.poll`, one poll, `Keeps.after`, a schedule, and `keeps_of_outset`, a mesh about
to run.
-/

import DiffusionMesh.Proofs.Mesh.Steps

namespace DiffusionMesh
namespace Geometry

/-- What the cell with a number reports after `n` steps. -/
def report (g : Geometry) (S : Nat) (b : Border) (n k : Nat) : List ResultWord :=
  (g.tile S b k n).resultWords ⟨UInt32.ofNat (g.column k), UInt32.ofNat (g.row k)⟩

/-- The tile of a cell before the first step. -/
theorem tile_zero {g : Geometry} {k : Nat} (S : Nat) (b : Border) (hk : k < g.cells.toNat) :
    g.tile S b k 0 = .zeros S := by
  have hrow := row_mul_le S hk
  have hcolumn := g.column_mul_le S k
  have hfield : ∀ i j, i < S → j < S →
      field (g.span * S) b 0 (g.row k * S + i + 1) (g.column k * S + j + 1) = .zero := by
    intro i j hi hj
    refine field_zero_of_inside (inside_iff.2 ?_)
    omega
  rw [tile, fieldTile, Tile.ofFn_congr hfield]
  simp only [Tile.ofFn, Tile.zeros, Tile.mk.injEq, true_and]
  exact Array.ext (by simp) fun i _ _ => by simp

/-- A cell that has done nothing yet is on the field. -/
theorem onField_outsetCell {g : Geometry} {k : Nat} (S : Nat) (b : Border) (ends : Nat → Ends)
    (hk : k < g.cells.toNat) : (g.outsetCell S b ends k).OnField g S b k 0 where
  position := rfl
  current := (tile_zero S b hk).symm
  size_next := rfl
  size_outgoing d := by
    change ((Compass.const (Edge.filled S .zero)).get d).size = S
    rw [Compass.get_const, Edge.size_filled]
  underway := nofun

end Geometry

namespace Run

/-- The worker of a cell that is not through. -/
def worker? (r : Run) (k : Nat) : Option Worker := (r.workers[k]?).join

/-- The run after the workers of a schedule have been polled in turn. -/
def after (schedule : List Nat) (r : Run) : Run := schedule.foldl (fun r k => (r.poll k).1) r

/-- The stations of the cells that are not through. -/
def crew (r : Run) (N : UInt32) : Crew := fun k =>
  (r.worker? k).map fun w => w.cell.station (N.toNat - w.left)

variable {r : Run} {k : Nat} {w : Worker}

theorem lt_of_worker? (h : r.worker? k = some w) : k < r.workers.size := by
  exact (Array.getElem?_eq_some_iff.1 (Option.join_eq_some_iff.1 h)).1

/-- The workers after one of them has been replaced. -/
theorem worker?_set (hk : k < r.workers.size) (v : Option Worker) (f : Fabric)
    (words : Array ResultWord) (j : Nat) :
    worker? ⟨f, r.workers.setIfInBounds k v, words⟩ j = if j = k then v else r.worker? j := by
  rw [worker?, Array.getElem?_setIfInBounds]
  by_cases hj : j = k
  · rw [if_pos hj.symm, if_pos hj, if_pos hk]
    rfl
  · rw [if_neg (Ne.symm hj), if_neg hj, worker?]

/-! ### The three outcomes of a poll -/

theorem poll_of_absent (h : r.worker? k = none) : r.poll k = (r, none) := by
  rw [worker?] at h
  simp only [poll, h]

theorem poll_of_waiting (h : r.worker? k = some w) (hp : (w.poll r.fabric).verdict = .waiting) :
    r.poll k = (⟨(w.poll r.fabric).fabric,
      r.workers.setIfInBounds k (some (w.poll r.fabric).worker), r.words⟩,
      some ⟨k, (w.poll r.fabric).entries, .waiting⟩) := by
  rw [worker?] at h
  simp only [poll, h, hp]

theorem poll_of_finished (h : r.worker? k = some w)
    (hp : (w.poll r.fabric).verdict = .finished ()) :
    r.poll k =
      let polled := w.poll r.fabric
      let cell := polled.worker.cell
      let emitted := cell.state.current.resultWords cell.position
      (⟨polled.fabric.release cell.peer.ends, r.workers.setIfInBounds k none,
        r.words.appendList emitted⟩,
        some ⟨k, polled.entries.push (.finished cell.id w.iterations),
          .finished ⟨cell.id, cell.position, w.iterations, polled.worker.early,
            emitted.length⟩⟩) := by
  rw [worker?] at h
  simp only [poll, h, hp]

/-! ### Keeping to the plan -/

/-- A run that has kept to the plan of its mesh. -/
structure Keeps (g : Geometry) (S : Nat) (b : Border) (N : UInt32) (ends : Nat → Ends) (r : Run) :
    Prop where
  concord : Concord (g.plan S b N.toNat) ends r.fabric (r.crew N)
  size : r.workers.size = g.cells.toNat
  worker : ∀ {k w}, r.worker? k = some w →
    w.iterations = N ∧ w.left ≤ N.toNat ∧ w.cell.OnField g S b k (N.toNat - w.left)
  reported : ∃ order : List Nat, order.Nodup ∧
    (∀ k, k ∈ order ↔ k < g.cells.toNat ∧ r.worker? k = none) ∧
    r.words.toList = order.flatMap (g.report S b N.toNat)

variable {g : Geometry} {S : Nat} {b : Border} {N : UInt32} {ends : Nat → Ends}

theorem Keeps.lt (h : r.Keeps g S b N ends) (hw : r.worker? k = some w) : k < g.cells.toNat :=
  h.size ▸ lt_of_worker? hw

theorem crew_of_worker (hw : r.worker? k = some w) :
    r.crew N k = some (w.cell.station (N.toNat - w.left)) := by
  rw [crew, hw]
  rfl

/-- The crew after a worker has been replaced. -/
theorem crew_set (hk : k < r.workers.size) (v : Option Worker) (f : Fabric)
    (words : Array ResultWord) : crew ⟨f, r.workers.setIfInBounds k v, words⟩ N =
      Function.update (r.crew N) k (v.map fun w => w.cell.station (N.toNat - w.left)) := by
  funext j
  rw [crew, worker?_set hk]
  by_cases hj : j = k
  · rw [if_pos hj, hj, Function.update_self]
  · rw [if_neg hj, Function.update_of_ne hj, crew]

/-- A poll takes a worker along the field. -/
theorem Keeps.advanced (h : r.Keeps g S b N ends) (hw : r.worker? k = some w) :
    ∃ n, Worker.Advanced g S b N ends r.fabric (r.crew N) k
      (w.cell.station (N.toNat - w.left)) 0 (w.poll r.fabric) n := by
  obtain ⟨hiterations, hleft, hfield⟩ := h.worker hw
  obtain ⟨n, hadvanced⟩ := Worker.exists_advanced (h.lt hw) hfield h.concord (crew_of_worker hw)
    (Nat.sub_add_cancel hleft) w.early w.opening
  rw [w.moved_opening] at hadvanced
  rw [w.poll_eq, hiterations]
  exact ⟨n, hadvanced⟩

/-- **A poll keeps a run to its plan.** -/
theorem Keeps.poll (h : r.Keeps g S b N ends) (k : Nat) : (r.poll k).1.Keeps g S b N ends := by
  cases hw : r.worker? k with
  | none =>
    rw [poll_of_absent hw]
    exact h
  | some w =>
    have hk := lt_of_worker? hw
    obtain ⟨order, hnodup, hmem, hwords⟩ := h.reported
    obtain ⟨n, hadvanced⟩ := h.advanced hw
    have hiterations := hadvanced.iterations
    have hleft := hadvanced.left
    have hn : N.toNat - (w.poll r.fabric).worker.left = n := by omega
    rcases hadvanced.verdict with ⟨hwaiting, -, -⟩ | ⟨hfinished, hall, hidle⟩
    · rw [poll_of_waiting hw hwaiting]
      refine ⟨?_, ?_, fun {j v} hv => ?_, order, hnodup, fun j => ?_, hwords⟩
      · rw [crew_set hk, Option.map_some, hn]
        exact hadvanced.concord
      · rw [Array.size_setIfInBounds]
        exact h.size
      · rw [worker?_set hk] at hv
        split at hv
        · next hj =>
          obtain rfl := Option.some.inj hv
          rw [hj, hn]
          exact ⟨hiterations, by omega, hadvanced.onField⟩
        · exact h.worker hv
      · rw [hmem, worker?_set hk]
        by_cases hj : j = k
        · rw [hj, if_pos rfl, hw]
          exact ⟨fun hnone => (nomatch hnone.2), fun hnone => (nomatch hnone.2)⟩
        · rw [if_neg hj]
    · have hself : Function.update (r.crew N) k (some ((w.poll r.fabric).worker.cell.station n)) k =
          some ((w.poll r.fabric).worker.cell.station n) := Function.update_self ..
      have hleave := hadvanced.concord.leave hself hidle hall
      rw [Function.update_idem, ← (hadvanced.concord.station hself).1] at hleave
      have hreport : (w.poll r.fabric).worker.cell.state.current.resultWords
          (w.poll r.fabric).worker.cell.position = g.report S b N.toNat k := by
        rw [hadvanced.onField.current, hadvanced.onField.position, hall]
        rfl
      have hnot : k ∉ order := fun hin => by
        have hnone := ((hmem k).1 hin).2
        exact nomatch hnone.symm.trans hw
      rw [poll_of_finished hw hfinished]
      refine ⟨?_, ?_, fun {j v} hv => ?_, order ++ [k], List.concat_eq_append ▸ hnodup.concat hnot,
        fun j => ?_, ?_⟩
      · rw [crew_set hk]
        exact hleave
      · rw [Array.size_setIfInBounds]
        exact h.size
      · rw [worker?_set hk] at hv
        split at hv
        · cases hv
        · exact h.worker hv
      · rw [List.mem_append, List.mem_singleton, hmem, worker?_set hk]
        by_cases hj : j = k
        · rw [if_pos hj]
          exact ⟨fun _ => ⟨hj ▸ h.size ▸ hk, rfl⟩, fun _ => .inr hj⟩
        · rw [if_neg hj, or_iff_left hj]
      · simp only [Array.appendList_eq_append, Array.toList_appendList, List.flatMap_append,
          List.flatMap_singleton, hwords, hreport]

/-- A poll leaves all other workers as they were. -/
theorem Keeps.worker?_poll_of_ne (h : r.Keeps g S b N ends) {j : Nat} (hj : j ≠ k) :
    (r.poll k).1.worker? j = r.worker? j := by
  cases hw : r.worker? k with
  | none => rw [poll_of_absent hw]
  | some w =>
    obtain ⟨n, hadvanced⟩ := h.advanced hw
    rcases hadvanced.verdict with ⟨hwaiting, -⟩ | ⟨hfinished, -⟩
    · rw [poll_of_waiting hw hwaiting, worker?_set (lt_of_worker? hw), if_neg hj]
    · rw [poll_of_finished hw hfinished, worker?_set (lt_of_worker? hw), if_neg hj]

/-- **A run keeps to its plan under every schedule.** -/
theorem Keeps.after (h : r.Keeps g S b N ends) (schedule : List Nat) :
    (r.after schedule).Keeps g S b N ends := by
  induction schedule generalizing r with
  | nil => exact h
  | cons k rest ih => exact ih (h.poll k)

/-- **No worker of a run that keeps to its plan fails.** -/
theorem Keeps.verdict_ne (h : r.Keeps g S b N ends) {event : Event}
    (hevent : (r.poll k).2 = some event) (cause : Failure) : event.verdict ≠ .failed cause := by
  intro hfailed
  cases hw : r.worker? k with
  | none =>
    rw [poll_of_absent hw] at hevent
    cases hevent
  | some w =>
    obtain ⟨n, hadvanced⟩ := h.advanced hw
    rcases hadvanced.verdict with ⟨hwaiting, -⟩ | ⟨hfinished, -⟩
    · rw [poll_of_waiting hw hwaiting] at hevent
      obtain rfl := Option.some.inj hevent
      cases hfailed
    · rw [poll_of_finished hw hfinished] at hevent
      obtain rfl := Option.some.inj hevent
      cases hfailed

/-! ### A mesh about to run -/

/-- The first worker of each cell. -/
theorem worker?_ofMesh (m : Mesh) (N : UInt32) (k : Nat) :
    (ofMesh m N).worker? k = (m.cell? k).map (Worker.ofCell · N) := by
  rw [worker?, ofMesh, Array.getElem?_map, Mesh.cell?]
  cases m.cells[k]? with
  | none => rfl
  | some c => rfl

/-- The cells of a mesh at its outset are in concord, whatever the number of rounds. -/
theorem concord_of_outset {m : Mesh} {capacity : UInt64} (h : m.Outset S b capacity ends)
    (rounds : Nat) : Concord (m.geometry.plan S b rounds) ends m.fabric
      fun k => (m.cell? k).map (·.station 0) := by
  refine Concord.initial capacity.toNat h.wired (fun k => ⟨UInt32.ofNat k⟩)
    (fun {i d n} hn => ?_) (fun {i x} hx => ?_) fun {i d j} hj => ?_
  · have hlt := h.bound hn
    rw [Array.getElem?_eq_getElem hlt, h.fresh (Array.getElem?_eq_getElem hlt)]
  · rw [h.cells] at hx
    split at hx
    · obtain rfl := Option.some.inj hx
      rfl
    · cases hx
  · rw [h.cells, if_pos (Geometry.mate_lt hj).1]
    rfl

/-- **A mesh about to run keeps to its plan.** -/
theorem keeps_of_outset {m : Mesh} {capacity : UInt64} (h : m.Outset S b capacity ends)
    (N : UInt32) : (ofMesh m N).Keeps m.geometry S b N ends := by
  have hworker : ∀ k, (ofMesh m N).worker? k = if k < m.geometry.cells.toNat then
      some (.ofCell (m.geometry.outsetCell S b ends k) N) else none := by
    intro k
    rw [worker?_ofMesh, h.cells]
    split <;> rfl
  have hcrew : (ofMesh m N).crew N = fun k => (m.cell? k).map (·.station 0) := by
    funext k
    rw [crew, worker?_ofMesh, Option.map_map]
    simp only [Function.comp_def, Worker.ofCell, Nat.sub_self]
  refine ⟨?_, ?_, fun {k w} hw => ?_, [], List.nodup_nil, fun k => ?_, rfl⟩
  · rw [hcrew]
    exact concord_of_outset h N.toNat
  · rw [ofMesh, Array.size_map, h.size]
  · rw [hworker] at hw
    split at hw
    · next hk =>
      obtain rfl := Option.some.inj hw
      refine ⟨rfl, Nat.le_refl _, ?_⟩
      simp only [Worker.ofCell, Nat.sub_self]
      exact Geometry.onField_outsetCell _ _ _ hk
    · cases hw
  · rw [hworker]
    constructor
    · intro hk
      cases hk
    · rintro ⟨hk, hnone⟩
      rw [if_pos hk] at hnone
      cases hnone

/-- An assembled mesh keeps to its plan when it is about to run. -/
theorem keeps_ofMesh {c : Config} {m : Mesh} (h : Mesh.assemble c = .ok m) (N : UInt32) :
    ∃ ends, (ofMesh m N).Keeps m.geometry c.edgeLength.toNat c.border N ends ∧
      ∀ k, m.cell? k = if k < m.geometry.cells.toNat then
        some (m.geometry.outsetCell c.edgeLength.toNat c.border ends k) else none := by
  obtain ⟨-, ends, houtset⟩ := Mesh.assembled h
  exact ⟨ends, keeps_of_outset houtset N, houtset.cells⟩

end Run
end DiffusionMesh

/-
# How far cells drift apart

Cells run at their own speed, but a cell needs the edges of its neighbors to go on. So neighbors
differ by one iteration at most, and cells further apart by their distance at most.

What a cell `a` has sent to its neighbor `b` and `b` has not put to use lies in a slot of `b` or on
the link between them:

```
   put to use │ slot of b │ link a → b        │ not sent
   ────────── │ ───────── │ ───────────────── │ ────────
      … s - 1 │     s     │ s + 1, …          │
```

where `s` is the number of iterations that `b` has completed, or one more. As `a` is at most one
iteration ahead, there are two of them at most.

Main statements: `Concord.underway`, for one pair of neighbors, and `skew_bounded`.
-/

import DiffusionMesh.Proofs.Mesh.Runs

namespace DiffusionMesh

/-- **The frames on their way to a neighbor** are those of consecutive iterations, two at most,
from the first that the neighbor has not put to use. -/
theorem Concord.underway {P : Plan} {ends : Nat → Ends} {f : Fabric} {crew : Crew}
    (h : Concord P ends f crew) {i j : Nat} {d : Direction} (hj : P.mate i d = some j) :
    ∃ n l start count, (ends i).outbound.get d = some n ∧ f.links[n]? = some l ∧
      (start = crew.completed P j ∨ start = crew.completed P j + 1) ∧ count ≤ 2 ∧
      ((crew j).bind fun y => y.peer.exchange.lookahead.get d.opposite).toList.map
        EdgeMessage.encode ++ l.queue = (List.range' start count).map (P.frame i d) := by
  obtain ⟨n, l, hn, hl, hcarries⟩ := h.link hj
  have hqueue := hcarries.queue
  have hle := hcarries.le
  have hsent := sent_le_completed crew P i d
  have hskew := h.completed_le hj
  cases hy : crew j with
  | none =>
    have htaken : crew.taken P j d.opposite = P.rounds := by
      rw [Crew.taken, hy]
      rfl
    have hcompleted : crew.completed P j = P.rounds := by
      rw [Crew.completed, hy]
      rfl
    have hall : crew.sent P i d = P.rounds :=
      Nat.le_antisymm (h.sent_le_rounds i d) (htaken ▸ hle)
    refine ⟨n, l, P.rounds, 0, hn, hl, .inl hcompleted.symm, Nat.zero_le 2, ?_⟩
    rw [hqueue, htaken, hall, P.frames_self]
    rfl
  | some y =>
    have htaken : crew.taken P j d.opposite = y.takenOn d.opposite := by
      rw [Crew.taken, hy]
      rfl
    have hcompleted : crew.completed P j = y.completed := by
      rw [Crew.completed, hy]
      rfl
    have happlied := y.completed_le_appliedOn d.opposite
    have happlied' := y.appliedOn_le d.opposite
    rw [htaken] at hqueue hle
    rw [hcompleted] at hskew
    refine ⟨n, l, y.appliedOn d.opposite, crew.sent P i d - y.appliedOn d.opposite, hn, hl, ?_, ?_,
      ?_⟩
    · omega
    · omega
    · change (y.peer.exchange.lookahead.get d.opposite).toList.map EdgeMessage.encode ++ l.queue =
        P.frames i d (y.appliedOn d.opposite) (crew.sent P i d)
      cases hslot : y.peer.exchange.lookahead.get d.opposite with
      | none =>
        have hon : y.takenOn d.opposite = y.appliedOn d.opposite := by
          rw [Station.takenOn, hslot]
          rfl
        rw [hqueue, hon]
        rfl
      | some message =>
        have hon : y.takenOn d.opposite = y.appliedOn d.opposite + 1 := by
          rw [Station.takenOn, hslot]
          rfl
        -- the slot holds the frame just before those on the link
        obtain ⟨k, hk, hmessage, -⟩ := (h.station hy).2.kept _ _ hslot
        obtain rfl := Option.some.inj ((P.mate_symm hj).symm.trans hk)
        rw [Direction.opposite_opposite] at hmessage
        rw [hon] at hqueue hle
        rw [P.frames_eq_cons i d hle, hqueue, hmessage]
        rfl

/-- The number of steps from one place of a mesh to another. -/
def Position.distance (p q : Position) : Nat :=
  ((p.x.toNat : Int) - q.x.toNat).natAbs + ((p.y.toNat : Int) - q.y.toNat).natAbs

/-- The frame of iteration `t` from a cell in a direction: the border of its tile after that
iteration. -/
def Geometry.edgeFrame (g : Geometry) (S : Nat) (b : Border) (k : Nat) (d : Direction) (t : Nat) :
    Frame :=
  EdgeMessage.encode
    ⟨d.opposite, .ofIteration (UInt32.ofNat t), LocalState.borderOf (g.tile S b k (t + 1)) d⟩

theorem Geometry.frame_plan (g : Geometry) (S : Nat) (b : Border) (rounds k : Nat) (d : Direction) :
    (g.plan S b rounds).frame k d = g.edgeFrame S b k d := by
  funext t
  rw [Plan.frame, Plan.message, edgeFrame]
  simp only [plan, Compass.get_ofFn]
  rfl

namespace Run

/-- The number of iterations that a cell has completed; all of them once it is through. -/
def completed (r : Run) (N : UInt32) (k : Nat) : Nat :=
  (r.worker? k).elim N.toNat fun w => N.toNat - w.left

/-- The edge of the next iteration that a cell keeps for a direction. -/
def parked (r : Run) (k : Nat) (d : Direction) : Option EdgeMessage :=
  (r.worker? k).bind fun w => w.cell.peer.exchange.lookahead.get d

variable {r : Run} {g : Geometry} {S : Nat} {b : Border} {N : UInt32} {ends : Nat → Ends}

theorem completed_crew (r : Run) (k : Nat) :
    (r.crew N).completed (g.plan S b N.toNat) k = r.completed N k := by
  rw [Crew.completed, crew, completed]
  cases r.worker? k with
  | none => rfl
  | some w => rfl

/-- A run that keeps to its plan has cells that differ by no more than their distance. -/
theorem Keeps.completed_le (h : r.Keeps g S b N ends) {i j : Nat} (hi : i < g.cells.toNat)
    (hj : j < g.cells.toNat) : r.completed N i ≤ r.completed N j + g.distance i j := by
  refine Geometry.le_add_distance (fun {k d j} hkj => ?_) hi hj
  have hle := h.concord.completed_le hkj
  rwa [completed_crew, completed_crew] at hle

/-- **Cells drift apart by their distance at most**, whatever the schedule, and the frames on their
way between neighbors are two at most, of consecutive iterations from the first that the receiver
has not put to use. -/
theorem skew_bounded {c : Config} {m : Mesh} (h : Mesh.assemble c = .ok m) (N : UInt32)
    (schedule : List Nat) :
    let r := (ofMesh m N).after schedule
    (∀ i j ci cj, m.cell? i = some ci → m.cell? j = some cj →
      ((r.completed N i : Int) - r.completed N j).natAbs ≤ ci.position.distance cj.position) ∧
    (∀ k w, r.worker? k = some w → w.cell.state.current =
      m.geometry.tile c.edgeLength.toNat c.border k (r.completed N k)) ∧
    ∀ i ci neighbors d id, m.cell? i = some ci → m.geometry.neighbors ci.id = .ok neighbors →
      neighbors.get d = some id → ∃ cj n l start count,
        m.cell? id.index.toNat = some cj ∧ ci.peer.ends.outbound.get d = some n ∧
        cj.peer.ends.inbound.get d.opposite = some n ∧ r.fabric.links[n]? = some l ∧
        (start = r.completed N id.index.toNat ∨ start = r.completed N id.index.toNat + 1) ∧
        count ≤ 2 ∧
        (r.parked id.index.toNat d.opposite).toList.map EdgeMessage.encode ++ l.queue =
          (List.range' start count).map
            (m.geometry.edgeFrame c.edgeLength.toNat c.border i d) := by
  intro r
  obtain ⟨ends, hinitial, hcell⟩ := keeps_ofMesh h N
  have hkeeps : r.Keeps m.geometry c.edgeLength.toNat c.border N ends := hinitial.after schedule
  have hget : ∀ {k cell}, m.cell? k = some cell → k < m.geometry.cells.toNat ∧
      cell = m.geometry.outsetCell c.edgeLength.toNat c.border ends k := by
    intro k cell hk
    rw [hcell] at hk
    split at hk
    · next hlt => exact ⟨hlt, (Option.some.inj hk).symm⟩
    · cases hk
  refine ⟨fun i j ci cj hi hj => ?_, fun k w hw => ?_, fun i ci neighbors d id hi hneighbors hid =>
    ?_⟩
  · obtain ⟨hilt, rfl⟩ := hget hi
    obtain ⟨hjlt, rfl⟩ := hget hj
    have hle := hkeeps.completed_le hilt hjlt
    have hge := hkeeps.completed_le hjlt hilt
    simp only [Position.distance, Geometry.outsetCell,
      Geometry.toNat_coordinate (m.geometry.column_lt _),
      Geometry.toNat_coordinate (m.geometry.row_lt hilt),
      Geometry.toNat_coordinate (m.geometry.row_lt hjlt)]
    rw [Geometry.distance] at hle hge
    omega
  · rw [completed, hw]
    exact (hkeeps.worker hw).2.2.current
  · obtain ⟨hilt, rfl⟩ := hget hi
    rw [show (m.geometry.outsetCell c.edgeLength.toNat c.border ends i).id = ⟨UInt32.ofNat i⟩
      from rfl, Geometry.neighbors_eq hilt] at hneighbors
    obtain rfl := Except.ok.inj hneighbors
    rw [Compass.get_ofFn] at hid
    obtain ⟨j, hj, rfl⟩ := Option.map_eq_some_iff.1 hid
    obtain ⟨-, hjlt⟩ := Geometry.mate_lt hj
    have hj' : (m.geometry.plan c.edgeLength.toNat c.border N.toNat).mate i d = some j := hj
    obtain ⟨n, l, start, count, hn, hl, hstart, hcount, hframes⟩ := hkeeps.concord.underway hj'
    have hin := hkeeps.concord.wired.inbound (Geometry.mate_symm hj)
    rw [Direction.opposite_opposite, hn] at hin
    rw [completed_crew] at hstart
    rw [Geometry.frame_plan, crew, Option.bind_map] at hframes
    simp only [Geometry.toNat_number hjlt]
    refine ⟨m.geometry.outsetCell c.edgeLength.toNat c.border ends j, n, l, start, count, ?_, hn,
      hin, hl, hstart, hcount, hframes⟩
    rw [hcell, if_pos hjlt]

/-- Four cells with tiles of side two: the opposite corners differ by two iterations at most. -/
theorem skew_bounded_square : ∃ m, Mesh.assemble { cells := 4, messageWords := 3 } = .ok m ∧
    ∀ (N : UInt32) (schedule : List Nat) i j ci cj, m.cell? i = some ci → m.cell? j = some cj →
      (((((ofMesh m N).after schedule).completed N i : Nat) : Int) -
        ((ofMesh m N).after schedule).completed N j).natAbs ≤ ci.position.distance cj.position := by
  obtain ⟨m, hm⟩ : ∃ m, Mesh.assemble { cells := 4, messageWords := 3 } = .ok m := ⟨_, rfl⟩
  exact ⟨m, hm, fun N schedule => (skew_bounded hm N schedule).1⟩

end Run
end DiffusionMesh

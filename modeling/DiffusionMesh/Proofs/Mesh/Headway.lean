/-
# Some cell always gets on

A cell waits for a neighbor to make room or to send. The cells that have completed the fewest
iterations never wait in a circle: whoever is no further than its neighbors finds room on its links,
because they have taken all it sent before, and the edge it waits for is either on its link or with
a neighbor that is no further either and can still send.

| least advanced cell | what a poll does |
| --- | --- |
| has edges to send | sends or takes a frame |
| waits for an edge that is sent | takes a frame |
| waits for an edge that is not sent | nothing; the neighbor there sends or takes a frame |

Main statement: `Concord.exists_headway`.
-/

import DiffusionMesh.Proofs.Mesh.Concord

namespace DiffusionMesh

/-- A station that gets on when it is polled: it is through with its iterations, has no neighbors
to wait for, or sends or takes a frame. -/
inductive Headway (P : Plan) (i : Nat) (f : Fabric) (x : Station) : Prop where
  | through : x.completed = P.rounds → Headway P i f x
  | alone : (∀ d, P.mate i d = none) → Headway P i f x
  | resume : x.peer.round.isSome = true →
      (x.peer.poll x.incoming f).acts.countP Act.moves ≠ 0 → Headway P i f x
  | start : x.peer.round = none → x.completed < P.rounds →
      ((x.begunBy P i).peer.poll (x.begunBy P i).incoming f).acts.countP Act.moves ≠ 0 →
      Headway P i f x

namespace Concord

variable {P : Plan} {ends : Nat → Ends} {f : Fabric} {crew : Crew} {i : Nat} {x : Station}

/-- Some station has completed no more iterations than any other. -/
theorem exists_least (h : Concord P ends f crew) {k : Nat} {y : Station} (hk : crew k = some y) :
    ∃ i x, crew i = some x ∧ ∀ j, x.completed ≤ crew.completed P j := by
  generalize hn : y.completed = n
  induction n using Nat.strongRecOn generalizing k y with
  | ind n ih =>
    by_cases hleast : ∀ j, y.completed ≤ crew.completed P j
    · exact ⟨k, y, hk, hleast⟩
    · obtain ⟨j, hj⟩ := Classical.not_forall.1 hleast
      rw [Nat.not_le] at hj
      cases hz : crew j with
      | none =>
        rw [Crew.completed, hz, Option.elim_none] at hj
        exact absurd (h.station hk).2.completed_le (Nat.not_le.2 hj)
      | some z =>
        rw [Crew.completed, hz, Option.elim_some, hn] at hj
        exact ih z.completed hj hz rfl

/-- A ready session of a cell moves a frame when the cell is polled. -/
theorem moves_of_ready (h : Concord P ends f crew) (hi : crew i = some x) {r : Round}
    (hr : x.peer.round = some r) (hready : Session.Ready P i (crew.vicinity P i) x.completed
      ⟨x.peer.exchange, r, x.incoming, f.ports (ends i), f.stats⟩) :
    (x.peer.poll x.incoming f).acts.countP Act.moves ≠ 0 := by
  have hmoves := hready.moves (h.session hi hr f.stats)
  rw [← (h.station hi).1] at hmoves
  simp only [Peer.poll, hr]
  exact hmoves

/-- The neighbors of a least advanced cell have taken all it sent in the iterations it has
completed. -/
theorem taken_of_least (hleast : ∀ j, x.completed ≤ crew.completed P j) (d : Direction) (j : Nat)
    (hj : P.mate i d = some j) : x.completed ≤ (crew.vicinity P i).taken d := by
  rw [Crew.taken_vicinity hj]
  exact Nat.le_trans (hleast j) (completed_le_taken crew P j d.opposite)

/-- A least advanced cell that has not sent the edge for a neighbor gets on. -/
theorem headway_of_unsent (h : Concord P ends f crew) (hi : crew i = some x)
    (hleast : ∀ j, x.completed ≤ crew.completed P j) (hlt : x.completed < P.rounds)
    {d : Direction} (hd : (P.mate i d).isSome = true) (hsent : x.sentOn d = x.completed) :
    Headway P i f x := by
  obtain ⟨hends, hsound⟩ := h.station hi
  have hmem := (hsound.mem_sendOrder d).2 hd
  cases hr : x.peer.round with
  | none =>
    refine .start hr hlt ?_
    have hself : Function.update crew i (some (x.begunBy P i)) i = some (x.begunBy P i) :=
      Function.update_self ..
    refine (h.begun hi hr hlt).moves_of_ready hself rfl (.send ?_ ?_)
    · exact Nat.ne_of_gt (List.length_pos_of_mem hmem)
    · intro e j hj
      rw [Crew.taken_vicinity hj, Crew.taken, Function.update_of_ne (P.mate_ne hj), ← Crew.taken,
        ← Crew.taken_vicinity hj]
      exact taken_of_least hleast e j hj
  | some r =>
    refine .resume (by rw [hr]; rfl) ?_
    refine h.moves_of_ready hi hr (.send (fun hunsent => ?_) (taken_of_least hleast))
    -- if all edges had been sent, so would be the one in this direction
    have hsends := (hsound.round r hr).sends
    change x.peer.exchange.unsent = 0 at hunsent
    have hall : r.nextSend = x.peer.exchange.sendOrder.length := by omega
    simp only [Station.sentOn, hr, hall, List.take_length, if_pos hmem] at hsent
    exact Nat.succ_ne_self _ hsent

/-- **Some cell always gets on.** -/
theorem exists_headway (h : Concord P ends f crew) (hleft : ∀ {i x r}, crew i = some x →
      x.peer.round = some r → ¬ (x.peer.exchange.unsent = 0 ∧ r.receives = 0))
    {k : Nat} {y : Station} (hk : crew k = some y) :
    ∃ i x, crew i = some x ∧ Headway P i f x := by
  obtain ⟨i, x, hi, hleast⟩ := h.exists_least hk
  obtain ⟨hends, hsound⟩ := h.station hi
  by_cases hdone : x.completed = P.rounds
  · exact ⟨i, x, hi, .through hdone⟩
  have hlt : x.completed < P.rounds := Nat.lt_of_le_of_ne hsound.completed_le hdone
  cases hr : x.peer.round with
  | none =>
    by_cases hmate : ∃ d, (P.mate i d).isSome = true
    · obtain ⟨d, hd⟩ := hmate
      exact ⟨i, x, hi, h.headway_of_unsent hi hleast hlt hd (Station.sentOn_of_idle hr d)⟩
    · refine ⟨i, x, hi, .alone fun d => ?_⟩
      rw [← Option.not_isSome_iff_eq_none]
      exact fun hd => hmate ⟨d, hd⟩
  | some r =>
    have hfollows := hsound.round r hr
    by_cases hunsent : x.peer.exchange.unsent = 0
    · -- an edge is to come, from a neighbor `j`
      have hcome : r.receives ≠ 0 := fun hzero => hleft hi hr ⟨hunsent, hzero⟩
      rw [hfollows.receives, ne_eq, Compass.count_eq_zero_iff] at hcome
      obtain ⟨d, hd⟩ := Classical.not_forall.1 hcome
      rw [Bool.not_eq_false] at hd
      obtain ⟨j, hj⟩ := Option.isSome_iff_exists.1 (hfollows.joined d hd)
      by_cases hsent : x.completed < crew.sent P j d.opposite
      · refine ⟨i, x, hi, .resume (by rw [hr]; rfl) (h.moves_of_ready hi hr (.take hd ?_))⟩
        rw [Crew.sent_vicinity hj]
        exact hsent
      · -- the edge is not sent, so `j` is among the least advanced cells too
        have hle := completed_le_sent crew P j d.opposite
        have hge := hleast j
        cases hy : crew j with
        | none =>
          rw [Crew.sent, hy] at hsent
          exact absurd hlt hsent
        | some y =>
          rw [Crew.completed, hy, Option.elim_some] at hle hge
          rw [Crew.sent, hy, Option.elim_some] at hle hsent
          have hequal : y.completed = x.completed := by omega
          refine ⟨j, y, hy, h.headway_of_unsent hy (fun k => hequal ▸ hleast k) (hequal ▸ hlt)
            (d := d.opposite) ?_ ?_⟩
          · rw [P.mate_symm hj]
            rfl
          · omega
    · exact ⟨i, x, hi, .resume (by rw [hr]; rfl)
        (h.moves_of_ready hi hr (.send hunsent (taken_of_least hleast)))⟩

end Concord
end DiffusionMesh

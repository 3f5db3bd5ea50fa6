/-
# A station: one cell on its way through a plan

A station is a peer with the edges it took last and the number of iterations it has completed.
For each direction it has counts, which determine where the link there stands:

| count | grows when |
| --- | --- |
| `sentOn` | an edge goes into the link |
| `appliedOn` | an edge of the iteration in progress is put to use |
| `takenOn` | a frame comes out of the link; ahead of `appliedOn` by the edge in the slot |

`Station.Sound` is what holds of a station that has kept to its plan. Starting a round and ending
one change no count (`Sound.start`, `Sound.finish`).
-/

import DiffusionMesh.Mesh.Peer
import DiffusionMesh.Proofs.Halo.Ledger
import DiffusionMesh.Proofs.Halo.Plan
import Mathlib.Algebra.Ring.Nat

namespace DiffusionMesh

/-- The edge that a cell has for a direction when it has put `n` edges from there to use. -/
def Plan.heard (P : Plan) (i : Nat) (d : Direction) : Nat → Edge
  | 0 => (P.initial i).get d
  | t + 1 =>
    match P.mate i d with
    | some j => (P.edges j t).get d.opposite
    | none => (P.initial i).get d

theorem Plan.heard_alone {P : Plan} {i : Nat} {d : Direction} (h : P.mate i d = none) (n : Nat) :
    P.heard i d n = (P.initial i).get d := by
  cases n with
  | zero => rfl
  | succ n => simp only [heard, h]

/-- Sums that differ in one term. -/
theorem sum_map_of_ne {α : Type} {l : List α} (hl : l.Nodup) {a : α} (ha : a ∈ l) {f g : α → Nat}
    (hne : ∀ e, e ≠ a → g e = f e) : (l.map g).sum + f a = (l.map f).sum + g a := by
  induction l with
  | nil => exact absurd ha List.not_mem_nil
  | cons e l ih =>
    obtain ⟨hnotin, hl⟩ := List.nodup_cons.1 hl
    rw [List.map_cons, List.sum_cons, List.map_cons, List.sum_cons]
    rcases List.mem_cons.1 ha with rfl | ha
    · have hrest : l.map g = l.map f :=
        List.map_congr_left fun e he => hne e fun heq => hnotin (heq ▸ he)
      rw [hrest]
      omega
    · have hea : e ≠ a := fun heq => hnotin (heq ▸ ha)
      have hsum := ih hl ha
      rw [hne e hea]
      omega

/-- The sum over the members of a list after one of them has been replaced or has gone. -/
theorem sum_setIfInBounds {α : Type} {vs : Array (Option α)} {k : Nat} {a : α}
    (h : (vs[k]?).join = some a) (v : Option α) (f : α → Nat) :
    ((List.range (vs.setIfInBounds k v).size).map fun j =>
        (((vs.setIfInBounds k v)[j]?).join).elim 0 f).sum + f a =
      ((List.range vs.size).map fun j => ((vs[j]?).join).elim 0 f).sum + v.elim 0 f := by
  have hk : k < vs.size := (Array.getElem?_eq_some_iff.1 (Option.join_eq_some_iff.1 h)).1
  have hsum := sum_map_of_ne (List.nodup_range (n := vs.size)) (List.mem_range.2 hk)
    (f := fun j => ((vs[j]?).join).elim 0 f)
    (g := fun j => (((vs.setIfInBounds k v)[j]?).join).elim 0 f)
    fun j hj => by rw [Array.getElem?_setIfInBounds_ne (Ne.symm hj)]
  simp only [Array.getElem?_setIfInBounds_self_of_lt hk, h, Option.join_some,
    Option.elim_some] at hsum
  rw [Array.size_setIfInBounds]
  exact hsum

/-- A peer with the edges it took last and the number of iterations it has completed. -/
structure Station where
  peer : Peer
  incoming : Compass Edge
  completed : Nat

namespace Station

variable (x : Station)

/-- The number of edges handed to the link in a direction. -/
def sentOn (d : Direction) : Nat :=
  x.completed + match x.peer.round with
    | some r => if d ∈ x.peer.exchange.sendOrder.take r.nextSend then 1 else 0
    | none => 0

/-- The number of edges from a direction that have been put to use. -/
def appliedOn (d : Direction) : Nat :=
  x.completed + match x.peer.round with
    | some r => if r.awaiting.get d then 0 else 1
    | none => 0

/-- The number of frames taken from the link in a direction. -/
def takenOn (d : Direction) : Nat :=
  x.appliedOn d + if (x.peer.exchange.lookahead.get d).isSome then 1 else 0

/-- The number of frames still to be sent and to be taken. -/
def toCome (rounds : Nat) : Nat :=
  (x.peer.exchange.sendOrder.map fun d => (rounds - x.sentOn d) + (rounds - x.takenOn d)).sum

end Station

/-- The round in progress is that of the next iteration and has come as far as it says. -/
structure Round.Follows (r : Round) (P : Plan) (i : Nat) (e : Exchange) (completed : Nat) :
    Prop where
  lt : completed < P.rounds
  iteration : r.iteration = UInt32.ofNat completed
  outgoing : r.outgoing = P.edges i completed
  sends : r.nextSend + e.unsent = e.sendOrder.length
  receives : r.receives = r.awaiting.count
  joined : ∀ d, r.awaiting.get d = true → (P.mate i d).isSome = true

/-- A station that has kept to the plan: an edge in a slot is the next one to be put to use, and
the incoming edges are those put to use last. -/
structure Station.Sound (P : Plan) (i : Nat) (x : Station) : Prop where
  edgeLength : x.peer.exchange.edgeLength = P.edgeLength
  sendOrder : x.peer.exchange.sendOrder = Direction.all.filter fun d => (P.mate i d).isSome
  completed_le : x.completed ≤ P.rounds
  idle : x.peer.round = none → x.peer.exchange.unsent = 0
  round : ∀ r, x.peer.round = some r → r.Follows P i x.peer.exchange x.completed
  kept : ∀ d m, x.peer.exchange.lookahead.get d = some m → ∃ j, P.mate i d = some j ∧
    m = P.message j d.opposite (x.appliedOn d) ∧
    ∀ r, x.peer.round = some r → r.awaiting.get d = false
  incoming : ∀ d, x.incoming.get d = P.heard i d (x.appliedOn d)
  alone : ∀ d, P.mate i d = none → x.peer.exchange.listening.get d = false

namespace Station

variable {P : Plan} {i : Nat} {x : Station}

theorem completed_le_appliedOn (x : Station) (d : Direction) : x.completed ≤ x.appliedOn d :=
  Nat.le_add_right _ _

theorem appliedOn_le_takenOn (x : Station) (d : Direction) : x.appliedOn d ≤ x.takenOn d :=
  Nat.le_add_right _ _

theorem completed_le_sentOn (x : Station) (d : Direction) : x.completed ≤ x.sentOn d :=
  Nat.le_add_right _ _

theorem sentOn_le (x : Station) (d : Direction) : x.sentOn d ≤ x.completed + 1 := by
  unfold sentOn
  split <;> try split
  all_goals omega

theorem appliedOn_le (x : Station) (d : Direction) : x.appliedOn d ≤ x.completed + 1 := by
  unfold appliedOn
  split <;> try split
  all_goals omega

theorem appliedOn_of_idle (h : x.peer.round = none) (d : Direction) :
    x.appliedOn d = x.completed := by
  simp [appliedOn, h]

theorem sentOn_of_idle (h : x.peer.round = none) (d : Direction) : x.sentOn d = x.completed := by
  simp [sentOn, h]

/-- A frame that is sent or taken in one direction leaves one less to come. -/
theorem toCome_succ {x' : Station} {n : Nat}
    (horder : x'.peer.exchange.sendOrder = x.peer.exchange.sendOrder)
    (hnodup : x.peer.exchange.sendOrder.Nodup) {d : Direction}
    (hd : d ∈ x.peer.exchange.sendOrder)
    (hlt : (n - x'.sentOn d) + (n - x'.takenOn d) + 1 = (n - x.sentOn d) + (n - x.takenOn d))
    (hne : ∀ e, e ≠ d → x'.sentOn e = x.sentOn e ∧ x'.takenOn e = x.takenOn e) :
    x'.toCome n + 1 = x.toCome n := by
  have hsum := sum_map_of_ne hnodup hd (f := fun d => (n - x.sentOn d) + (n - x.takenOn d))
    (g := fun d => (n - x'.sentOn d) + (n - x'.takenOn d))
    fun e he => by rw [(hne e he).1, (hne e he).2]
  rw [toCome, toCome, horder]
  omega

/-- Stations with the same counts have as much to come. -/
theorem toCome_congr {x' : Station} {n : Nat}
    (horder : x'.peer.exchange.sendOrder = x.peer.exchange.sendOrder)
    (heq : ∀ d ∈ x.peer.exchange.sendOrder,
      x'.sentOn d = x.sentOn d ∧ x'.takenOn d = x.takenOn d) :
    x'.toCome n = x.toCome n := by
  rw [toCome, toCome, horder]
  exact congrArg List.sum (List.map_congr_left fun d hd => by rw [(heq d hd).1, (heq d hd).2])

/-- A station that has completed its iterations has no frames to come. -/
theorem toCome_of_done {n : Nat} (hidle : x.peer.round = none) (hdone : x.completed = n) :
    x.toCome n = 0 := by
  refine List.sum_eq_zero_iff_forall_eq_nat.2 fun m hm => ?_
  obtain ⟨d, -, rfl⟩ := List.mem_map.1 hm
  have hsent := sentOn_of_idle hidle d
  have happlied := appliedOn_of_idle hidle d
  have htaken := x.appliedOn_le_takenOn d
  omega

namespace Sound

theorem mem_sendOrder (h : x.Sound P i) (d : Direction) :
    d ∈ x.peer.exchange.sendOrder ↔ (P.mate i d).isSome = true := by
  rw [h.sendOrder, List.mem_filter]
  exact ⟨And.right, fun hd => ⟨Direction.mem_all d, hd⟩⟩

theorem nodup_sendOrder (h : x.Sound P i) : x.peer.exchange.sendOrder.Nodup := by
  rw [h.sendOrder]
  exact List.Pairwise.filter _ (by decide)

/-- No more edges are sent than there are iterations. -/
theorem sentOn_le_rounds (h : x.Sound P i) (d : Direction) : x.sentOn d ≤ P.rounds := by
  cases hr : x.peer.round with
  | none => exact sentOn_of_idle hr d ▸ h.completed_le
  | some r => exact Nat.le_trans (x.sentOn_le d) (h.round r hr).lt

/-- In a round, an edge in the slot of a direction means that the edge of the iteration has been
put to use. -/
theorem lookahead_of_awaiting (h : x.Sound P i) {r : Round} (hr : x.peer.round = some r)
    {d : Direction} (hd : r.awaiting.get d = true) : x.peer.exchange.lookahead.get d = none := by
  cases hm : x.peer.exchange.lookahead.get d with
  | none => rfl
  | some m =>
    obtain ⟨j, -, -, hfalse⟩ := h.kept d m hm
    rw [hfalse r hr] at hd
    cases hd

end Sound

/-! ### Starting a round -/

/-- The station with a round begun. -/
def begun (x : Station) (iteration : UInt32) (outgoing : Compass Edge) : Station :=
  let (peer, incoming, _) := x.peer.start iteration outgoing x.incoming
  ⟨peer, incoming, x.completed⟩

/-- The station with the round of its next iteration begun, as planned. -/
def begunBy (P : Plan) (i : Nat) (x : Station) : Station :=
  x.begun (UInt32.ofNat x.completed) (P.edges i x.completed)

namespace Sound

/-- Between rounds every slot holds the edge of the next iteration. -/
theorem kept_eq (h : x.Sound P i) (hidle : x.peer.round = none) (d : Direction) :
    x.peer.exchange.kept (.ofRound x.completed) d =
      (x.peer.exchange.lookahead.get d).map EdgeMessage.edge := by
  unfold Exchange.kept
  cases hm : x.peer.exchange.lookahead.get d with
  | none => rfl
  | some m =>
    obtain ⟨j, -, hmsg, -⟩ := h.kept d m hm
    rw [appliedOn_of_idle hidle] at hmsg
    rw [Option.bind_some, if_pos (by rw [hmsg]; rfl)]
    rfl

theorem lookahead_begunBy (h : x.Sound P i) (hidle : x.peer.round = none) (d : Direction) :
    (x.begunBy P i).peer.exchange.lookahead.get d = none := by
  have hk := h.kept_eq hidle d
  change (Compass.ofFn _).get d = none
  rw [Compass.get_ofFn]
  change (if (x.peer.exchange.kept (.ofRound x.completed) d).isSome then none else _) = none
  rw [hk, Option.isSome_map]
  split
  · rfl
  · next hnone =>
    rwa [Bool.not_eq_true, Option.isSome_eq_false_iff, Option.isNone_iff_eq_none] at hnone

/-- An edge is awaited from each neighbor whose edge was not in the slot. -/
theorem awaiting_begunBy (h : x.Sound P i) (hidle : x.peer.round = none) {r : Round}
    (hr : (x.begunBy P i).peer.round = some r) (d : Direction) :
    r.awaiting.get d = ((P.mate i d).isSome && (x.peer.exchange.lookahead.get d).isNone) := by
  obtain rfl := Option.some.inj hr
  have hk := h.kept_eq hidle d
  change (Compass.ofFn _).get d = _
  rw [Compass.get_ofFn]
  change (x.peer.exchange.hasNeighbor d &&
    (x.peer.exchange.kept (.ofRound x.completed) d).isNone) = _
  rw [hk, Option.isNone_map]
  congr 1
  rw [Bool.eq_iff_iff, Exchange.hasNeighbor, List.contains_iff_mem, h.mem_sendOrder]

theorem appliedOn_begunBy (h : x.Sound P i) (hidle : x.peer.round = none) {d : Direction}
    (hd : (P.mate i d).isSome = true) : (x.begunBy P i).appliedOn d = x.takenOn d := by
  have hr : (x.begunBy P i).peer.round = some _ := rfl
  have ha := h.awaiting_begunBy hidle hr d
  rw [hd, Bool.true_and] at ha
  rw [takenOn, appliedOn_of_idle hidle]
  change x.completed + (if _ then 0 else 1) = _
  rw [ha]
  cases x.peer.exchange.lookahead.get d <;> rfl

/-- Starting a round takes no frame. -/
theorem takenOn_begunBy (h : x.Sound P i) (hidle : x.peer.round = none) {d : Direction}
    (hd : (P.mate i d).isSome = true) : (x.begunBy P i).takenOn d = x.takenOn d := by
  rw [takenOn, h.appliedOn_begunBy hidle hd, h.lookahead_begunBy hidle d]
  rfl

/-- Starting a round sends no edge. -/
theorem sentOn_begunBy (hidle : x.peer.round = none) (d : Direction) :
    (x.begunBy P i).sentOn d = x.sentOn d := by
  rw [sentOn_of_idle hidle]
  change x.completed + (if d ∈ x.peer.exchange.sendOrder.take 0 then 1 else 0) = x.completed
  rw [List.take_zero, if_neg List.not_mem_nil, Nat.add_zero]

theorem toCome_begunBy (h : x.Sound P i) (hidle : x.peer.round = none) (n : Nat) :
    (x.begunBy P i).toCome n = x.toCome n :=
  toCome_congr rfl fun d hd =>
    ⟨sentOn_begunBy hidle d, h.takenOn_begunBy hidle ((h.mem_sendOrder d).1 hd)⟩

/-- The edges to come are counted: one for each neighbor, less those from the slots. -/
theorem receives_begunBy (h : x.Sound P i) (hidle : x.peer.round = none) {r : Round}
    (hr : (x.begunBy P i).peer.round = some r) : r.receives = r.awaiting.count := by
  obtain rfl := Option.some.inj hr
  have hpart : ∀ d, (x.peer.exchange.kept (.ofRound x.completed) d).isSome = true →
      x.peer.exchange.hasNeighbor d = true := by
    intro d hd
    rw [h.kept_eq hidle, Option.isSome_map] at hd
    obtain ⟨m, hm⟩ := Option.isSome_iff_exists.1 hd
    obtain ⟨j, hj, -⟩ := h.kept d m hm
    rw [Exchange.hasNeighbor, List.contains_iff_mem, h.mem_sendOrder, hj, Option.isSome_some]
  have hcount := x.peer.exchange.neighborCount_eq h.sendOrder
  exact (x.peer.exchange.counts_start (UInt32.ofNat x.completed) (P.edges i x.completed) x.incoming
    hcount hpart).1

/-- The incoming edges are those put to use last, also after the slots have been emptied. -/
theorem incoming_begunBy (h : x.Sound P i) (hidle : x.peer.round = none) (d : Direction) :
    (x.begunBy P i).incoming.get d = P.heard i d ((x.begunBy P i).appliedOn d) := by
  have hin : (x.begunBy P i).incoming.get d =
      ((x.peer.exchange.lookahead.get d).map EdgeMessage.edge).getD (x.incoming.get d) := by
    rw [← h.kept_eq hidle d]
    exact Compass.get_ofFn _ d
  rw [hin]
  cases hm : x.peer.exchange.lookahead.get d with
  | none =>
    rw [Option.map_none, Option.getD_none, h.incoming d]
    cases hj : P.mate i d with
    | none => rw [Plan.heard_alone hj, Plan.heard_alone hj]
    | some j =>
      rw [h.appliedOn_begunBy hidle (by rw [hj]; rfl), takenOn, hm]
      rfl
  | some m =>
    obtain ⟨j, hj, hmsg, -⟩ := h.kept d m hm
    rw [h.appliedOn_begunBy hidle (by rw [hj]; rfl), takenOn, hm, hmsg]
    simp only [Option.map_some, Option.getD_some, Option.isSome_some, if_true, Plan.heard, hj]
    rfl

/-- **A round begins as planned.** -/
theorem begunBy (h : x.Sound P i) (hidle : x.peer.round = none) (hlt : x.completed < P.rounds) :
    (x.begunBy P i).Sound P i where
  edgeLength := h.edgeLength
  sendOrder := h.sendOrder
  completed_le := h.completed_le
  idle hnone := by cases hnone
  round r hr := by
    refine ⟨hlt, ?_, ?_, ?_, h.receives_begunBy hidle hr, fun d hd => ?_⟩
    · obtain rfl := Option.some.inj hr
      rfl
    · obtain rfl := Option.some.inj hr
      rfl
    · obtain rfl := Option.some.inj hr
      exact Nat.zero_add _
    · rw [h.awaiting_begunBy hidle hr, Bool.and_eq_true] at hd
      exact hd.1
  kept d m hm := by
    rw [h.lookahead_begunBy hidle] at hm
    cases hm
  incoming := h.incoming_begunBy hidle
  alone := h.alone

end Sound

/-! ### Ending a round -/

/-- The station with its round ended. -/
def ended (x : Station) : Station :=
  ⟨{ x.peer with round := none }, x.incoming, x.completed + 1⟩

namespace Sound

variable {r : Round}

theorem awaiting_of_receives (h : x.Sound P i) (hr : x.peer.round = some r)
    (hcome : r.receives = 0) (d : Direction) : r.awaiting.get d = false :=
  (Compass.count_eq_zero_iff _).1 ((h.round r hr).receives ▸ hcome) d

/-- All edges of a round that is over have been sent. -/
theorem sentOn_ended (h : x.Sound P i) (hr : x.peer.round = some r)
    (hsent : x.peer.exchange.unsent = 0) {d : Direction} (hd : (P.mate i d).isSome = true) :
    x.ended.sentOn d = x.sentOn d := by
  have hall : r.nextSend = x.peer.exchange.sendOrder.length := by
    have := (h.round r hr).sends
    omega
  rw [sentOn_of_idle rfl]
  simp only [sentOn, hr]
  rw [hall, List.take_length, if_pos ((h.mem_sendOrder d).2 hd)]
  rfl

/-- All edges of a round that is over have been put to use. -/
theorem appliedOn_ended (h : x.Sound P i) (hr : x.peer.round = some r) (hcome : r.receives = 0)
    (d : Direction) : x.ended.appliedOn d = x.appliedOn d := by
  rw [appliedOn_of_idle rfl]
  simp only [appliedOn, hr]
  rw [h.awaiting_of_receives hr hcome d]
  rfl

theorem takenOn_ended (h : x.Sound P i) (hr : x.peer.round = some r) (hcome : r.receives = 0)
    (d : Direction) : x.ended.takenOn d = x.takenOn d := by
  rw [takenOn, h.appliedOn_ended hr hcome d]
  rfl

theorem toCome_ended (h : x.Sound P i) (hr : x.peer.round = some r)
    (hsent : x.peer.exchange.unsent = 0) (hcome : r.receives = 0) (n : Nat) :
    x.ended.toCome n = x.toCome n :=
  toCome_congr rfl fun d hd =>
    ⟨h.sentOn_ended hr hsent ((h.mem_sendOrder d).1 hd), h.takenOn_ended hr hcome d⟩

/-- **A round ends as planned.** -/
theorem ended (h : x.Sound P i) (hr : x.peer.round = some r)
    (hsent : x.peer.exchange.unsent = 0) (hcome : r.receives = 0) : x.ended.Sound P i where
  edgeLength := h.edgeLength
  sendOrder := h.sendOrder
  completed_le := (h.round r hr).lt
  idle _ := hsent
  round _ hnone := by cases hnone
  kept d m hm := by
    obtain ⟨j, hj, hmsg, -⟩ := h.kept d m hm
    exact ⟨j, hj, by rw [h.appliedOn_ended hr hcome]; exact hmsg, fun _ hnone => by cases hnone⟩
  incoming d := by rw [h.appliedOn_ended hr hcome]; exact h.incoming d
  alone := h.alone

end Sound
end Station
end DiffusionMesh

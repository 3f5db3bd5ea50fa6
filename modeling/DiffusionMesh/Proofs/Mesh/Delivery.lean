/-
# A network delivers the right edges

A relay is a network whose members each perform a number of exchanges, one after the other, and
then give up their link ends. A step of a relay polls one member, and any list of members is a
schedule. Whatever the schedule:

| a member | what is known |
| --- | --- |
| in an exchange | the exchange has not failed |
| after exchange `t` | it has its neighbors' edges of `t`, and in its slots at most those of `t + 1` |
| after its last exchange | its slots and the links toward it are empty |

The network is in concord with the plan of the relay all along (`Relay.Keeps.poll`).
-/

import DiffusionMesh.Proofs.Mesh.Wiring

namespace DiffusionMesh

/-- What a poll of a network comes to for a member with a round to do. -/
theorem Network.poll_eq {n : Network} {i : Nat} {m : Member} (hm : n.members[i]? = some m)
    {round : Round} (hround : (Member.begin m).1.peer.round = some round) :
    n.poll i =
      let polled := (Member.begin m).1.peer.poll (Member.begin m).1.incoming n.fabric
      (⟨polled.fabric, n.members.setIfInBounds i
        { (Member.begin m).1 with peer := polled.peer, incoming := polled.incoming }⟩,
        some {
          member := i
          cell := (Member.begin m).1.peer.exchange.cell
          iteration := round.iteration
          acts := (Member.begin m).2 ++ polled.acts
          verdict := polled.verdict }) := by
  simp only [Network.poll, hm]
  generalize Member.begin m = b at *
  obtain ⟨m', begun⟩ := b
  simp only at hround
  simp only [hround]

/-- A network, the exchanges that each member has performed, and who has given up its ends. -/
structure Relay where
  network : Network
  completed : Nat → Nat
  departed : Nat → Bool

namespace Relay

/-- The relay of a network whose members hold the given edges at first. -/
def ofNetwork (n : Network) (initial : Nat → Compass Edge) : Relay where
  network := { n with members := n.members.mapIdx fun i m => { m with incoming := initial i } }
  completed _ := 0
  departed _ := false

section

variable (rounds : Nat) (out : Nat → Nat → Compass Edge)

/-- Polls the exchange of a member; one that is between exchanges begins the next one, and one that
has performed them all gives up its link ends. -/
def poll (s : Relay) (i : Nat) : Relay × Option Network.Event :=
  match s.network.members[i]? with
  | none => (s, none)
  | some m =>
    if s.departed i then (s, none)
    else if s.completed i < rounds then
      let asked := if Network.Member.busy m then s.network
        else s.network.request i ⟨UInt32.ofNat (s.completed i), out i (s.completed i)⟩
      let (network, event) := asked.poll i
      let completed := match event.map (·.verdict) with
        | some (.finished _) => Function.update s.completed i (s.completed i + 1)
        | _ => s.completed
      ({ s with network := network, completed := completed }, event)
    else
      let fabric := s.network.fabric.release m.peer.ends
      ({ s with
          network := { s.network with fabric := fabric }
          departed := Function.update s.departed i true }, none)

/-- The relay after the members of a schedule have been polled in turn. -/
def after (schedule : List Nat) (s : Relay) : Relay :=
  schedule.foldl (fun s i => (s.poll rounds out i).1) s

end

/-- The stations of the members that hold their ends. -/
def crew (s : Relay) : Crew := fun i =>
  if s.departed i then none
  else (s.network.members[i]?).map fun m => ⟨m.peer, m.incoming, s.completed i⟩

/-- A relay that has kept to its plan. -/
structure Keeps (P : Plan) (ends : Nat → Ends) (s : Relay) : Prop where
  concord : Concord P ends s.network.fabric s.crew
  request : ∀ {i : Nat} {m : Member}, s.network.members[i]? = some m → m.request = none
  ends : ∀ {i : Nat} {m : Member}, s.network.members[i]? = some m → m.peer.ends = ends i
  departed : ∀ {i : Nat} {m : Member}, s.network.members[i]? = some m → s.departed i = true →
    s.completed i = P.rounds ∧ ∀ d, m.peer.exchange.lookahead.get d = none

variable {s : Relay} {i : Nat} {m : Member}

theorem crew_of_present (hm : s.network.members[i]? = some m) (hi : s.departed i = false) :
    s.crew i = some ⟨m.peer, m.incoming, s.completed i⟩ := by
  rw [crew, hi, if_neg Bool.false_ne_true, hm]
  rfl

theorem crew_of_departed (hi : s.departed i = true) : s.crew i = none := by
  rw [crew, hi, if_pos rfl]

/-- What a step of a relay comes to for a member that is not through: `p` is the poll of its
exchange, after which it has performed `n`. -/
structure Stepped (P : Plan) (ends : Nat → Ends) (s : Relay) (i : Nat) (m : Member)
    (s' : Relay) (event : Option Network.Event) (p : Peer.Polled) (n : Nat) : Prop where
  outcome : Concord.Outcome P ends s.network.fabric s.crew i ⟨m.peer, m.incoming, s.completed i⟩ p n
  event : ∃ cell acts, event = some ⟨i, cell, UInt32.ofNat (s.completed i), acts, p.verdict⟩
  fabric : s'.network.fabric = p.fabric
  members : ∀ k, s'.network.members[k]? =
    if k = i then some ⟨p.peer, p.incoming, none⟩ else s.network.members[k]?
  completed : s'.completed = Function.update s.completed i n
  departed : s'.departed = s.departed

variable {P : Plan} {ends : Nat → Ends}

/-- The exchanges performed are counted by how the poll ended. -/
theorem completed_of_outcome {f : Fabric} {crew : Crew} {x : Station} {p : Peer.Polled} {n : Nat}
    {count : Nat → Nat} (h : Concord.Outcome P ends f crew i x p n) (hx : x.completed = count i) :
    (match some p.verdict with
      | some (.finished _) => Function.update count i (count i + 1)
      | _ => count) = Function.update count i n := by
  rcases h.verdict with ⟨hverdict, hn, -⟩ | ⟨⟨report, hverdict⟩, hn, -⟩
  · rw [hverdict, hn, hx, Function.update_eq_self]
  · rw [hverdict, hn, hx]

theorem Keeps.exists_stepped (h : s.Keeps P ends) (hm : s.network.members[i]? = some m)
    (hi : s.departed i = false) (hlt : s.completed i < P.rounds) :
    ∃ p n, Stepped P ends s i m (s.poll P.rounds P.edges i).1 (s.poll P.rounds P.edges i).2
      p n := by
  have hcrew := crew_of_present hm hi
  have hrequest := h.request hm
  have hbound := (Array.getElem?_eq_some_iff.1 hm).1
  obtain ⟨peer, incoming, request⟩ := m
  obtain rfl : request = none := hrequest
  simp only [poll, hm, hi, Bool.false_eq_true, if_false, hlt, if_true]
  cases hr : peer.round with
  | some r =>
    obtain ⟨n, houtcome⟩ := h.concord.polled hcrew hr
    have hbusy : Network.Member.busy ⟨peer, incoming, none⟩ = true := by
      rw [Network.Member.busy, hr]
      rfl
    have hiteration : r.iteration = UInt32.ofNat (s.completed i) :=
      ((h.concord.station hcrew).2.round r hr).iteration
    rw [if_pos hbusy, Network.poll_eq hm hr]
    refine ⟨_, n, houtcome, ⟨_, _, by rw [← hiteration]; rfl⟩, rfl, fun k => ?_,
      completed_of_outcome houtcome rfl, rfl⟩
    rw [Array.getElem?_setIfInBounds]
    by_cases hk : k = i
    · rw [if_pos hk.symm, if_pos hk, if_pos hbound]
      rfl
    · rw [if_neg (Ne.symm hk), if_neg hk]
  | none =>
    obtain ⟨n, houtcome⟩ := h.concord.polled_begunBy hcrew hr hlt
    have hidle : ¬ Network.Member.busy ⟨peer, incoming, none⟩ = true := by
      rw [Network.Member.busy, hr]
      exact Bool.false_ne_true
    have hasked : (s.network.request i
        ⟨UInt32.ofNat (s.completed i), P.edges i (s.completed i)⟩).members[i]? =
          some ⟨peer, incoming,
            some ⟨UInt32.ofNat (s.completed i), P.edges i (s.completed i)⟩⟩ := by
      rw [Network.request, Array.getElem?_modify, if_pos rfl, hm]
      rfl
    rw [if_neg hidle, Network.poll_eq hasked rfl]
    refine ⟨_, n, houtcome, ⟨_, _, rfl⟩, rfl, fun k => ?_,
      completed_of_outcome houtcome rfl, rfl⟩
    rw [Array.getElem?_setIfInBounds, Network.request, Array.size_modify, Array.getElem?_modify]
    by_cases hk : k = i
    · rw [if_pos hk.symm, if_pos hk, if_pos hbound]
      rfl
    · rw [if_neg (Ne.symm hk), if_neg hk, if_neg (Ne.symm hk)]

/-- The stations after a step of a member that is not through. -/
theorem Stepped.crew_eq {s' : Relay} {event : Option Network.Event} {p : Peer.Polled} {n : Nat}
    (h : Stepped P ends s i m s' event p n) (hi : s.departed i = false) :
    s'.crew = Function.update s.crew i (some ⟨p.peer, p.incoming, n⟩) := by
  funext k
  rw [crew, h.departed, h.members, h.completed]
  by_cases hk : k = i
  · rw [hk, hi, if_neg Bool.false_ne_true, if_pos rfl, Function.update_self, Function.update_self]
    rfl
  · rw [if_neg hk, Function.update_of_ne hk, Function.update_of_ne hk, crew]

/-- A step of a member that is not through keeps to the plan. -/
theorem Keeps.stepped (h : s.Keeps P ends) (hi : s.departed i = false) {s' : Relay}
    {event : Option Network.Event} {p : Peer.Polled} {n : Nat}
    (hstepped : Stepped P ends s i m s' event p n) : s'.Keeps P ends := by
  have hconcord := hstepped.outcome.concord
  rw [← hstepped.crew_eq hi, ← hstepped.fabric] at hconcord
  refine ⟨hconcord, fun {k m'} hm' => ?_, fun {k m'} hm' => ?_, fun {k m'} hm' hk => ?_⟩
  · rw [hstepped.members] at hm'
    split at hm'
    · obtain rfl := Option.some.inj hm'
      rfl
    · exact h.request hm'
  · by_cases hki : k = i
    · have hk : s'.departed k = false := by rw [hstepped.departed, hki, hi]
      exact (hconcord.station (crew_of_present hm' hk)).1
    · rw [hstepped.members, if_neg hki] at hm'
      exact h.ends hm'
  · rw [hstepped.departed] at hk
    have hki : k ≠ i := by
      rintro rfl
      rw [hi] at hk
      cases hk
    rw [hstepped.members, if_neg hki] at hm'
    rw [hstepped.completed, Function.update_of_ne hki]
    exact h.departed hm' hk

/-- A member that is through gives up its ends and keeps to the plan. -/
theorem Keeps.leave (h : s.Keeps P ends) (hm : s.network.members[i]? = some m)
    (hi : s.departed i = false) (hdone : ¬ s.completed i < P.rounds) :
    (s.poll P.rounds P.edges i).2 = none ∧ (s.poll P.rounds P.edges i).1.Keeps P ends := by
  have hcrew := crew_of_present hm hi
  have hsound := (h.concord.station hcrew).2
  have hall : s.completed i = P.rounds := Nat.le_antisymm hsound.completed_le (Nat.not_lt.1 hdone)
  have hidle : m.peer.round = none := by
    cases hr : m.peer.round with
    | none => rfl
    | some r => exact absurd (hsound.round r hr).lt hdone
  have hconcord := h.concord.leave hcrew hidle hall
  rw [← h.ends hm] at hconcord
  simp only [poll, hm, hi, Bool.false_eq_true, if_false, hdone]
  refine ⟨trivial, ?_, h.request, h.ends, fun {k m'} hm' hk => ?_⟩
  · have hcrew' : crew ⟨{ s.network with fabric := s.network.fabric.release m.peer.ends },
        s.completed, Function.update s.departed i true⟩ = Function.update s.crew i none := by
      funext k
      by_cases hk : k = i
      · rw [crew_of_departed (hk ▸ Function.update_self ..), hk, Function.update_self]
      · rw [Function.update_of_ne hk, crew, crew]
        change (if Function.update s.departed i true k then none else _) = _
        rw [Function.update_of_ne hk]
    rw [hcrew']
    exact hconcord
  · by_cases hki : k = i
    · subst hki
      obtain rfl := Option.some.inj (hm.symm.trans hm')
      exact ⟨hall, h.concord.slots_of_done hcrew hidle hall⟩
    · change Function.update s.departed i true k = true at hk
      rw [Function.update_of_ne hki] at hk
      exact h.departed hm' hk

/-- A step that has an event is one of a member that is not through. -/
theorem Keeps.poll_cases (h : s.Keeps P ends) (i : Nat) :
    ((s.poll P.rounds P.edges i).2 = none ∧ (s.poll P.rounds P.edges i).1.Keeps P ends) ∨
      ∃ m, s.network.members[i]? = some m ∧ s.departed i = false ∧ ∃ p n,
        Stepped P ends s i m (s.poll P.rounds P.edges i).1 (s.poll P.rounds P.edges i).2 p n := by
  cases hm : s.network.members[i]? with
  | none =>
    left
    rw [poll, hm]
    exact ⟨rfl, h⟩
  | some m =>
    cases hi : s.departed i with
    | true =>
      left
      simp only [poll, hm, hi, if_true]
      exact ⟨trivial, h⟩
    | false =>
      by_cases hlt : s.completed i < P.rounds
      · exact .inr ⟨m, rfl, rfl, h.exists_stepped hm hi hlt⟩
      · exact .inl (h.leave hm hi hlt)

/-- **Every step keeps to the plan.** -/
theorem Keeps.poll (h : s.Keeps P ends) (i : Nat) : (s.poll P.rounds P.edges i).1.Keeps P ends := by
  rcases h.poll_cases i with ⟨-, hkeeps⟩ | ⟨m, -, hi, p, n, hstepped⟩
  · exact hkeeps
  · exact h.stepped hi hstepped

/-- **Every schedule keeps to the plan.** -/
theorem Keeps.after (h : s.Keeps P ends) (schedule : List Nat) :
    (s.after P.rounds P.edges schedule).Keeps P ends := by
  induction schedule generalizing s with
  | nil => exact h
  | cons i rest ih => exact ih (h.poll i)

/-! ### What a relay delivers -/

theorem Keeps.incoming (h : s.Keeps P ends) (hm : s.network.members[i]? = some m)
    (hi : s.departed i = false) (hidle : m.peer.round = none) (d : Direction) :
    m.incoming.get d = P.heard i d (s.completed i) := by
  have hincoming := (h.concord.station (crew_of_present hm hi)).2.incoming d
  rwa [Station.appliedOn_of_idle hidle] at hincoming

theorem Keeps.lookahead (h : s.Keeps P ends) (hm : s.network.members[i]? = some m)
    (hi : s.departed i = false) (hidle : m.peer.round = none) {d : Direction}
    {message : EdgeMessage} (hslot : m.peer.exchange.lookahead.get d = some message) :
    ∃ j, P.mate i d = some j ∧ message = P.message j d.opposite (s.completed i) := by
  obtain ⟨j, hj, hmessage, -⟩ :=
    (h.concord.station (crew_of_present hm hi)).2.kept d message hslot
  rw [Station.appliedOn_of_idle hidle] at hmessage
  exact ⟨j, hj, hmessage⟩

/-- A member that is through has nothing in its slots and nothing on the links toward it. -/
theorem Keeps.drained (h : s.Keeps P ends) (hm : s.network.members[i]? = some m)
    (hdone : s.completed i = P.rounds) :
    (∀ d, m.peer.exchange.lookahead.get d = none) ∧
      ∀ d n, m.peer.ends.inbound.get d = some n →
        ∃ l, s.network.fabric.links[n]? = some l ∧ l.queue = [] := by
  cases hi : s.departed i with
  | true =>
    refine ⟨(h.departed hm hi).2, fun d n hn => h.concord.inbound_of_taken (fun _ => ?_)
      (h.ends hm ▸ hn)⟩
    rw [Crew.taken, crew_of_departed hi, Option.elim_none]
  | false =>
    have hcrew := crew_of_present hm hi
    have hidle : m.peer.round = none := by
      cases hr : m.peer.round with
      | none => rfl
      | some r =>
        exact absurd ((h.concord.station hcrew).2.round r hr).lt
          (Nat.not_lt.2 (Nat.le_of_eq hdone.symm))
    refine ⟨h.concord.slots_of_done hcrew hidle hdone, fun d n hn =>
      h.concord.inbound_of_taken (fun hj => ?_) (h.ends hm ▸ hn)⟩
    obtain ⟨j, hj⟩ := Option.isSome_iff_exists.1 hj
    rw [Crew.taken, hcrew, Option.elim_some]
    exact (h.concord.taken_of_done hcrew hidle hdone hj).1

end Relay

/-- The member of a cell with the given ends. -/
def Member.enlist (edgeLength : Nat) (p : CellId × Ends) : Except Failure Member := do
  let peer ← Peer.create p.1 edgeLength p.2
  return { peer := peer, incoming := .const (.filled edgeLength .zero), request := none }

/-- The member of a cell that has done nothing yet. -/
def Member.fresh (edgeLength : Nat) (p : CellId × Ends) : Member :=
  ⟨.fresh p.1 edgeLength p.2, .const (.filled edgeLength .zero), none⟩

/-- **A network is created wired as its joins say**, with members that have done nothing yet. -/
theorem Network.wiring_of_create {cells : List CellId} {joins : List Join} {edgeLength : Nat}
    {capacity : UInt64} {net : Network} (hproper : Proper cells.length joins)
    (hnet : create cells joins edgeLength capacity = .ok net) :
    ∃ s, Wiring cells.length capacity joins s ∧ net.fabric = s.1 ∧
      net.members = ((cells.zip s.2.toList).map (Member.fresh edgeLength)).toArray := by
  change (joins.foldlM Fabric.join (Fabric.ofCapacity capacity,
    Array.replicate cells.length Ends.none) >>= fun s => do
      let members ← (cells.zip s.2.toList).mapM (Member.enlist edgeLength)
      return ⟨s.1, members.toArray⟩) = .ok net at hnet
  cases hs : joins.foldlM Fabric.join (Fabric.ofCapacity capacity,
      Array.replicate cells.length Ends.none) with
  | error cause =>
    rw [hs] at hnet
    cases hnet
  | ok s =>
    have hwiring := Wiring.of_joinAll hproper hs
    have hmembers : (cells.zip s.2.toList).mapM (Member.enlist edgeLength) =
        .ok ((cells.zip s.2.toList).map (Member.fresh edgeLength)) := by
      refine mapM_eq_ok fun p hp => ?_
      obtain ⟨k, hk⟩ := List.mem_iff_getElem?.1 (List.of_mem_zip hp).2
      have hends : s.2.getD k .none = p.2 := by
        rw [Array.getD_eq_getD_getElem?, ← Array.getElem?_toList, hk, Option.getD_some]
      rw [Member.enlist, ← hends, hwiring.wired.create_eq (mates_symm hproper), Member.fresh, hends]
      rfl
    rw [hs] at hnet
    change ((cells.zip s.2.toList).mapM (Member.enlist edgeLength) >>= fun members =>
      pure ⟨s.1, members.toArray⟩) = .ok net at hnet
    rw [hmembers] at hnet
    obtain rfl := Except.ok.inj hnet
    exact ⟨s, hwiring, rfl, rfl⟩

/-- The plan of a network of joined cells. -/
def Plan.ofJoins {n : Nat} {joins : List Join} (hproper : Proper n joins) (rounds : Nat)
    {edgeLength : Nat} {out : Nat → Nat → Compass Edge}
    (hsize : ∀ i t d, ((out i t).get d).size = edgeLength) (initial : Nat → Compass Edge) :
    Plan where
  rounds := rounds
  edgeLength := edgeLength
  mate := mates joins
  edges := out
  initial := initial
  mate_symm := mates_symm hproper
  mate_ne := mates_ne hproper
  size_edges := hsize

namespace Relay

/-- **A relay begins in keeping with its plan.** -/
theorem keeps_ofNetwork {cells : List CellId} {joins : List Join} {edgeLength : Nat}
    {capacity : UInt64} {net : Network} (hproper : Proper cells.length joins)
    (hnet : Network.create cells joins edgeLength capacity = .ok net) (rounds : Nat)
    {out : Nat → Nat → Compass Edge} (hsize : ∀ i t d, ((out i t).get d).size = edgeLength)
    (initial : Nat → Compass Edge) : ∃ ends,
      (ofNetwork net initial).Keeps (.ofJoins hproper rounds hsize initial) ends := by
  obtain ⟨s, hwiring, hfabric, hmembers⟩ := Network.wiring_of_create hproper hnet
  have hget : ∀ i, (ofNetwork net initial).network.members[i]? = (cells[i]?).map fun c =>
      (⟨.fresh c edgeLength (s.2.getD i .none), initial i, none⟩ : Member) := by
    intro i
    simp only [ofNetwork, Array.getElem?_mapIdx, hmembers, List.getElem?_toArray, List.getElem?_map,
      List.zip, List.getElem?_zipWith, Array.getElem?_toList]
    cases hc : cells[i]? with
    | none => rfl
    | some c =>
      have hlt : i < s.2.size := hwiring.size ▸ (List.getElem?_eq_some_iff.1 hc).1
      rw [Array.getElem?_eq_getElem hlt, Array.getD_eq_getD_getElem?, Array.getElem?_eq_getElem hlt]
      rfl
  have hcrew : ∀ i, (ofNetwork net initial).crew i = (cells[i]?).map fun c =>
      (⟨.fresh c edgeLength (s.2.getD i .none), initial i, 0⟩ : Station) := by
    intro i
    rw [crew, hget, Option.map_map]
    rfl
  refine ⟨(s.2.getD · .none), ?_, fun {i m} hm => ?_, fun {i m} hm => ?_, fun _ hi => nomatch hi⟩
  · refine Concord.initial capacity.toNat hwiring.wired (fun i => cells.getD i default)
      (fun {i d n} hn => ?_) (fun {i x} hx => ?_) fun {i d j} hj => ?_
    · have hlt := hwiring.bound hn
      change net.fabric.links[n]? = _
      rw [hfabric, Array.getElem?_eq_getElem hlt,
        hwiring.fresh (Array.getElem?_eq_getElem hlt)]
    · rw [hcrew] at hx
      obtain ⟨c, hc, rfl⟩ := Option.map_eq_some_iff.1 hx
      rw [Plan.outset, List.getD_eq_getElem?_getD, hc]
      rfl
    · rw [hcrew, Option.isSome_map, List.getElem?_eq_getElem (mates_lt hproper hj).1]
      rfl
  · rw [hget] at hm
    obtain ⟨c, -, rfl⟩ := Option.map_eq_some_iff.1 hm
    rfl
  · rw [hget] at hm
    obtain ⟨c, -, rfl⟩ := Option.map_eq_some_iff.1 hm
    rfl

/-- Two cells that lie side by side, `j` in direction `d` from `i`. -/
def Beside (joins : List Join) (i : Nat) (d : Direction) (j : Nat) : Prop :=
  (i, j, d) ∈ joins ∨ (j, i, d.opposite) ∈ joins

/-- What a member has after its exchange of iteration `t`. -/
structure Delivered (joins : List Join) (out : Nat → Nat → Compass Edge)
    (initial : Nat → Compass Edge) (i t : Nat) (m : Member) : Prop where
  /-- It has the edges that its neighbors send in iteration `t`. -/
  edges : ∀ {d j}, Beside joins i d j → m.incoming.get d = (out j t).get d.opposite
  /-- Where it has no neighbor, it has what it had at first. -/
  alone : ∀ {d}, (∀ j, ¬ Beside joins i d j) → m.incoming.get d = (initial i).get d
  /-- An edge in a slot is that of the next iteration. -/
  ahead : ∀ {d message}, m.peer.exchange.lookahead.get d = some message → ∃ j,
    Beside joins i d j ∧
      message = ⟨d, .ofIteration (UInt32.ofNat (t + 1)), (out j (t + 1)).get d.opposite⟩

/-- A member that keeps to its plan has what it should between its exchanges. -/
theorem Keeps.delivered {n : Nat} {joins : List Join} {hproper : Proper n joins} {rounds : Nat}
    {edgeLength : Nat} {out : Nat → Nat → Compass Edge}
    {hsize : ∀ i t d, ((out i t).get d).size = edgeLength} {initial : Nat → Compass Edge}
    {s : Relay} {ends : Nat → Ends} {i : Nat} {m : Member}
    (h : s.Keeps (.ofJoins hproper rounds hsize initial) ends)
    (hm : s.network.members[i]? = some m) (hi : s.departed i = false)
    (hidle : m.peer.round = none) {t : Nat} (ht : s.completed i = t + 1) :
    Delivered joins out initial i t m := by
  refine ⟨fun {d j} hj => ?_, fun {d} hnone => ?_, fun {d message} hslot => ?_⟩
  · have hmate : mates joins i d = some j := (mates_eq_some_iff hproper).2 hj
    rw [h.incoming hm hi hidle, ht]
    simp only [Plan.heard, Plan.ofJoins, hmate]
  · have hmate : mates joins i d = none := by
      cases hj : mates joins i d with
      | none => rfl
      | some j => exact absurd ((mates_eq_some_iff hproper).1 hj) (hnone j)
    rw [h.incoming hm hi hidle, Plan.heard_alone hmate]
    rfl
  · obtain ⟨j, hj, rfl⟩ := h.lookahead hm hi hidle hslot
    refine ⟨j, (mates_eq_some_iff hproper).1 hj, ?_⟩
    rw [Plan.message, Direction.opposite_opposite, ht]
    rfl

/-- **A network delivers the right edges of the right iteration.** Whatever the schedule, no
exchange fails; a member whose exchange of iteration `t` has ended, just now or some time ago, has
the edges of `t`; and nothing is left for a member that has performed all its exchanges. -/
theorem delivers {cells : List CellId} {joins : List Join} {edgeLength : Nat} {capacity : UInt64}
    {net : Network} (hproper : Proper cells.length joins)
    (hnet : Network.create cells joins edgeLength capacity = .ok net) (rounds : Nat)
    {out : Nat → Nat → Compass Edge} (hsize : ∀ i t d, ((out i t).get d).size = edgeLength)
    (initial : Nat → Compass Edge) (schedule : List Nat) :
    let s := (ofNetwork net initial).after rounds out schedule
    (∀ i event, (s.poll rounds out i).2 = some event →
      event.iteration = UInt32.ofNat (s.completed i) ∧ (∀ cause, event.verdict ≠ .failed cause) ∧
      ∀ report, event.verdict = .finished report → ∃ m,
        (s.poll rounds out i).1.network.members[i]? = some m ∧
        Delivered joins out initial i (s.completed i) m) ∧
    (∀ i t m, s.network.members[i]? = some m → s.departed i = false → m.peer.round = none →
      s.completed i = t + 1 → Delivered joins out initial i t m) ∧
    ∀ i m, s.network.members[i]? = some m → s.completed i = rounds →
      (∀ d, m.peer.exchange.lookahead.get d = none) ∧
      ∀ d n, m.peer.ends.inbound.get d = some n →
        ∃ l, s.network.fabric.links[n]? = some l ∧ l.queue = [] := by
  intro s
  obtain ⟨ends, hinitial⟩ := keeps_ofNetwork hproper hnet rounds hsize initial
  have hkeeps : s.Keeps (.ofJoins hproper rounds hsize initial) ends := hinitial.after schedule
  refine ⟨fun i event hevent => ?_, fun i t m hm hi hidle ht => hkeeps.delivered hm hi hidle ht,
    fun i m hm hdone => hkeeps.drained hm hdone⟩
  rcases hkeeps.poll_cases i with ⟨hnone, -⟩ | ⟨m, hm, hi, p, n, hstepped⟩
  · exact nomatch hnone.symm.trans hevent
  · obtain ⟨cell, acts, hevent'⟩ := hstepped.event
    obtain rfl := Option.some.inj (hevent.symm.trans hevent')
    have hverdict := hstepped.outcome.verdict
    refine ⟨rfl, fun cause hfailed => ?_, fun report hfinished => ?_⟩
    · rcases hverdict with ⟨hwaiting, -⟩ | ⟨⟨report, hfinished⟩, -⟩
      · exact nomatch hwaiting.symm.trans hfailed
      · exact nomatch hfinished.symm.trans hfailed
    · rcases hverdict with ⟨hwaiting, -⟩ | ⟨-, hn, hidle⟩
      · exact nomatch hwaiting.symm.trans hfinished
      · have hm' := hstepped.members i
        rw [if_pos rfl] at hm'
        refine ⟨_, hm', (hkeeps.poll i).delivered hm' ?_ hidle ?_⟩
        · exact congrFun hstepped.departed i |>.trans hi
        · refine (congrFun hstepped.completed i).trans ?_
          rw [Function.update_self, hn]

/-- Two cells side by side, one link of a single frame each way, and five exchanges. -/
theorem delivers_pair : ∃ net,
    Network.create [⟨0⟩, ⟨1⟩] [(0, 1, .east)] 1 1 = .ok net ∧
    ∀ (schedule : List Nat) i event,
      (((ofNetwork net fun _ => .const (.filled 1 .zero)).after 5
        (fun _ _ => .const (.filled 1 .hot)) schedule).poll 5
        (fun _ _ => .const (.filled 1 .hot)) i).2 = some event →
      ∀ cause, event.verdict ≠ .failed cause := by
  have hproper : Proper ([⟨0⟩, ⟨1⟩] : List CellId).length [(0, 1, .east)] := by decide
  obtain ⟨net, hnet⟩ : ∃ net, Network.create [⟨0⟩, ⟨1⟩] [(0, 1, .east)] 1 1 = .ok net := ⟨_, rfl⟩
  refine ⟨net, hnet, fun schedule i event hevent => ?_⟩
  refine ((delivers hproper hnet 5 (fun _ _ d => ?_) _ schedule).1 i event hevent).2.1
  rw [Compass.get_const, Edge.size_filled]

end Relay
end DiffusionMesh

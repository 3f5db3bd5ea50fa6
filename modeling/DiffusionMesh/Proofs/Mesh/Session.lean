/-
# Sessions that keep to a plan

A session is a station with a round in progress and its links in hand. While it is polled the
cells around it stand still, so what they have done is a constant: a `Vicinity`. What a session
relies on in each direction (`Vicinity.Reliable`) and what it keeps (`Session.Sound`) make every
outcome of a turn but three impossible:

| outcome | why |
| --- | --- |
| refused, unheard | a cell leaves only after its last edge is sent and the last one to it taken |
| second edge, too far ahead | a neighbor has sent at most one edge more than it has taken |

Main statements: `Sound.turn`, a turn of a sound session acts, ends the round or waits, and
`Sound.poll`, the same of a poll.
-/

import DiffusionMesh.Proofs.Halo.Turns
import DiffusionMesh.Proofs.Mesh.Station

namespace DiffusionMesh

/-- What the cells around a cell have done so far, by the direction in which they lie. -/
structure Vicinity where
  /-- The number of edges they have sent here. -/
  sent : Direction → Nat
  /-- The number of frames they have taken from here. -/
  taken : Direction → Nat
  /-- Whether they have given up their link ends. -/
  gone : Direction → Bool

/-- What a cell relies on in a direction. -/
structure Vicinity.Reliable (v : Vicinity) (P : Plan) (d : Direction) : Prop where
  sent_le : v.sent d ≤ P.rounds
  sent_le_taken : v.sent d ≤ v.taken d + 1
  gone : v.gone d = true → v.sent d = P.rounds ∧ v.taken d = P.rounds

/-- The links of a station in a direction stand as its counts and those of the cell there say. -/
structure Station.Linked (x : Station) (P : Plan) (i : Nat) (v : Vicinity) (ports : Ports)
    (d : Direction) (j : Nat) : Prop where
  outbound : ∃ l, ports.outbound.get d = some l ∧
    l.Carries P i d (v.taken d) (x.sentOn d) true (!v.gone d)
  inbound : ∃ l, ports.inbound.get d = some l ∧
    l.Carries P j d.opposite (x.takenOn d) (v.sent d) (!v.gone d) true
  unheard : x.peer.exchange.listening.get d = false → v.gone d = true ∧ x.takenOn d = v.sent d

/-- Stations with the same counts stand alike to their links. -/
theorem Station.Linked.congr {x x' : Station} {P : Plan} {i : Nat} {v : Vicinity} {ports : Ports}
    {d : Direction} {j : Nat} (h : x.Linked P i v ports d j) (hsent : x'.sentOn d = x.sentOn d)
    (htaken : x'.takenOn d = x.takenOn d)
    (hlisten : x'.peer.exchange.listening = x.peer.exchange.listening) :
    x'.Linked P i v ports d j := by
  refine ⟨?_, ?_, ?_⟩
  · rw [hsent]
    exact h.outbound
  · rw [htaken]
    exact h.inbound
  · rw [htaken, hlisten]
    exact h.unheard

namespace Session

/-- The station that a session is about. -/
def station (s : Session) (ends : Ends) (t : Nat) : Station :=
  ⟨⟨s.exchange, ends, some s.round⟩, s.incoming, t⟩

/-- A session in the round of iteration `t` that has kept to the plan. -/
structure Sound (P : Plan) (i : Nat) (v : Vicinity) (ends : Ends) (t : Nat) (s : Session) :
    Prop where
  station : (s.station ends t).Sound P i
  reliable : ∀ d j, P.mate i d = some j → v.Reliable P d
  linked : ∀ d j, P.mate i d = some j → (s.station ends t).Linked P i v s.ports d j

variable {P : Plan} {i : Nat} {v : Vicinity} {ends : Ends} {t : Nat} {s : Session}

/-- A session is sound as a station when its exchange and its round are. -/
theorem station_sound (hlength : s.exchange.edgeLength = P.edgeLength)
    (horder : s.exchange.sendOrder = Direction.all.filter fun d => (P.mate i d).isSome)
    (hfollows : s.round.Follows P i s.exchange t)
    (hkept : ∀ d m, s.exchange.lookahead.get d = some m → ∃ j, P.mate i d = some j ∧
      m = P.message j d.opposite ((s.station ends t).appliedOn d) ∧ s.round.awaiting.get d = false)
    (hincoming : ∀ d, s.incoming.get d = P.heard i d ((s.station ends t).appliedOn d))
    (halone : ∀ d, P.mate i d = none → s.exchange.listening.get d = false) :
    (s.station ends t).Sound P i where
  edgeLength := hlength
  sendOrder := horder
  completed_le := Nat.le_of_lt hfollows.lt
  idle hnone := by cases hnone
  round r hr := by
    obtain rfl := Option.some.inj hr
    exact hfollows
  kept d m hm := by
    obtain ⟨j, hj, hmsg, hfalse⟩ := hkept d m hm
    refine ⟨j, hj, hmsg, fun r hr => ?_⟩
    obtain rfl := Option.some.inj hr
    exact hfalse
  incoming := hincoming
  alone := halone

/-- How much a session has moved: so many frames fewer are to come, and so many more are counted
as sent or received. -/
structure Advanced (s next : Session) (ends : Ends) (t rounds moved : Nat) : Prop where
  toCome : (next.station ends t).toCome rounds + moved = (s.station ends t).toCome rounds
  counted : next.stats.sent + next.stats.received = s.stats.sent + s.stats.received + moved

namespace Sound

theorem kept (h : s.Sound P i v ends t) {d : Direction} {m : EdgeMessage}
    (hm : s.exchange.lookahead.get d = some m) : ∃ j, P.mate i d = some j ∧
      m = P.message j d.opposite ((s.station ends t).appliedOn d) ∧
      s.round.awaiting.get d = false := by
  obtain ⟨j, hj, hmsg, hfalse⟩ := h.station.kept d m hm
  exact ⟨j, hj, hmsg, hfalse s.round rfl⟩

theorem follows (h : s.Sound P i v ends t) : s.round.Follows P i s.exchange t :=
  h.station.round s.round rfl

theorem frameFor_eq (h : s.Sound P i v ends t) (d : Direction) : s.frameFor d = P.frame i d t := by
  rw [frameFor, Round.parity, h.follows.iteration, h.follows.outgoing]
  rfl

/-! ### Sending -/

/-- The next direction has a neighbor, and nothing of this iteration has been sent there. -/
theorem target (h : s.Sound P i v ends t) {d : Direction} (hd : s.target? = some d) :
    (∃ j, P.mate i d = some j) ∧ d ∉ s.exchange.sendOrder.take s.round.nextSend := by
  have hmem : d ∈ s.exchange.sendOrder := List.mem_of_getElem? hd
  refine ⟨Option.isSome_iff_exists.1 ((h.station.mem_sendOrder d).1 hmem), fun htake => ?_⟩
  obtain ⟨hlt, hget⟩ := List.getElem?_eq_some_iff.1 hd
  have hnodup : s.exchange.sendOrder.Nodup := h.station.nodup_sendOrder
  rw [← List.take_append_drop s.round.nextSend s.exchange.sendOrder, List.nodup_append] at hnodup
  refine hnodup.2.2 d htake d ?_ rfl
  rw [List.drop_eq_getElem_cons hlt, hget]
  exact List.mem_cons_self

theorem sentOn_target (h : s.Sound P i v ends t) {d : Direction} (hd : s.target? = some d) :
    (s.station ends t).sentOn d = t := by
  change t + (if d ∈ s.exchange.sendOrder.take s.round.nextSend then 1 else 0) = t
  rw [if_neg (h.target hd).2, Nat.add_zero]

/-- The next edge finds its link with room, or full of frames that have not been taken. -/
theorem offerNext (h : s.Sound P i v ends t) {d : Direction} (hd : s.target? = some d) :
    (∃ l, s.offerNext d = .taken l ∧ l.Carries P i d (v.taken d) (t + 1) true (!v.gone d)) ∨
      s.offerNext d = .full ∧ v.taken d < t := by
  obtain ⟨j, hj⟩ := (h.target hd).1
  obtain ⟨l, hl, hcarries⟩ := (h.linked d j hj).outbound
  rw [h.sentOn_target hd] at hcarries
  have hstay : v.gone d = false := by
    cases hgone : v.gone d with
    | false => rfl
    | true =>
      have htaken := ((h.reliable d j hj).gone hgone).2
      have := hcarries.le
      have := h.follows.lt
      omega
  rw [hstay] at hcarries ⊢
  rw [Session.offerNext, hl, h.frameFor_eq]
  exact hcarries.offer

/-- A sent edge is counted in its direction and in no other. -/
theorem sentOn_afterSend {d : Direction} (hd : s.target? = some d) (l : Link)
    (e : Direction) : ((s.afterSend d l).station ends t).sentOn e =
      if e = d then t + 1 else (s.station ends t).sentOn e := by
  change t + (if e ∈ s.exchange.sendOrder.take (s.round.nextSend + 1) then 1 else 0) = _
  rw [List.take_add_one, show s.exchange.sendOrder[s.round.nextSend]? = some d from hd]
  simp only [Option.toList_some, List.mem_append, List.mem_singleton]
  by_cases he : e = d
  · rw [if_pos he, if_pos (.inr he)]
  · simp only [he, or_false, if_false]
    rfl

/-- Sending the next edge keeps a session sound. -/
theorem afterSend (h : s.Sound P i v ends t) {d : Direction} (hsend : s.exchange.unsent ≠ 0)
    (hd : s.target? = some d) {l : Link}
    (hl : l.Carries P i d (v.taken d) (t + 1) true (!v.gone d)) :
    (s.afterSend d l).Sound P i v ends t where
  station := by
    refine station_sound h.station.edgeLength h.station.sendOrder
      ⟨h.follows.lt, h.follows.iteration, h.follows.outgoing, ?_, h.follows.receives,
        h.follows.joined⟩ (fun e m hm => h.kept hm) h.station.incoming h.station.alone
    have := h.follows.sends
    change s.round.nextSend + 1 + (s.exchange.unsent - 1) = s.exchange.sendOrder.length
    omega
  reliable := h.reliable
  linked e j hj := by
    refine ⟨?_, (h.linked e j hj).inbound, (h.linked e j hj).unheard⟩
    rw [sentOn_afterSend hd]
    by_cases he : e = d
    · subst he
      exact ⟨l, Compass.get_set_self _ _ _, by rw [if_pos rfl]; exact hl⟩
    · rw [if_neg he]
      obtain ⟨l', hl', hcarries⟩ := (h.linked e j hj).outbound
      exact ⟨l', (Compass.get_set_of_ne _ he _).trans hl', hcarries⟩

/-! ### Taking -/

/-- A frame that is taken is the next one of its link, and the neighbor has not sent more than one
edge beyond the iteration in progress. -/
theorem taken (h : s.Sound P i v ends t) {d : Direction} {l l' : Link} {f : Frame}
    (hopen : s.exchange.listening.get d = true) (hl : s.ports.inbound.get d = some l)
    (harr : l.arrival = .frame f l') : ∃ j, P.mate i d = some j ∧
      f = P.frame j d.opposite ((s.station ends t).takenOn d) ∧
      l'.Carries P j d.opposite ((s.station ends t).takenOn d + 1) (v.sent d) (!v.gone d) true ∧
      (s.station ends t).takenOn d < P.rounds ∧ (s.station ends t).takenOn d < t + 2 := by
  cases hj : P.mate i d with
  | none => exact absurd (h.station.alone d hj) (by rw [Bool.not_eq_false]; exact hopen)
  | some j =>
    obtain ⟨l₀, hl₀, hcarries⟩ := (h.linked d j hj).inbound
    obtain rfl : l = l₀ := Option.some.inj (hl.symm.trans hl₀)
    have hlt : (s.station ends t).takenOn d < v.sent d := by
      refine Nat.lt_of_le_of_ne hcarries.le fun heq => ?_
      rw [heq] at hcarries
      rw [hcarries.arrival_self] at harr
      split at harr <;> cases harr
    obtain ⟨l₁, harr₁, hcarries₁⟩ := hcarries.arrival hlt
    obtain ⟨rfl, rfl⟩ := Arrival.frame.inj (harr.symm.trans harr₁)
    obtain ⟨lout, hlout, hout⟩ := (h.linked d j hj).outbound
    have hrely := h.reliable d j hj
    have hsent : (s.station ends t).sentOn d ≤ t + 1 := (s.station ends t).sentOn_le d
    have := hrely.sent_le
    have := hrely.sent_le_taken
    have := hout.le
    exact ⟨j, rfl, rfl, hcarries₁, by omega, by omega⟩

/-- A session that differs in one taken frame has its links as its counts say. -/
theorem linked_of_taken (h : s.Sound P i v ends t) {s' : Session} {d : Direction} {l : Link}
    (hports : s'.ports = { s.ports with inbound := s.ports.inbound.set d (some l) })
    (hlisten : s'.exchange.listening = s.exchange.listening)
    (hsent : ∀ e, (s'.station ends t).sentOn e = (s.station ends t).sentOn e)
    (htaken : ∀ e, (s'.station ends t).takenOn e =
      if e = d then (s.station ends t).takenOn d + 1 else (s.station ends t).takenOn e)
    (hopen : s.exchange.listening.get d = true)
    (hl : ∀ j, P.mate i d = some j →
      l.Carries P j d.opposite ((s.station ends t).takenOn d + 1) (v.sent d) (!v.gone d) true)
    (e : Direction) (j : Nat) (hj : P.mate i e = some j) :
    (s'.station ends t).Linked P i v s'.ports e j := by
  have hout := (h.linked e j hj).outbound
  rw [← hsent e] at hout
  by_cases he : e = d
  · subst he
    refine ⟨by rw [hports]; exact hout, ⟨l, ?_, ?_⟩, fun hclosed => ?_⟩
    · rw [hports]
      exact Compass.get_set_self _ _ _
    · rw [htaken, if_pos rfl]
      exact hl j hj
    · change s'.exchange.listening.get e = false at hclosed
      rw [hlisten, hopen] at hclosed
      cases hclosed
  · obtain ⟨l', hl', hcarries⟩ := (h.linked e j hj).inbound
    have htaken' : (s'.station ends t).takenOn e = (s.station ends t).takenOn e := by
      rw [htaken, if_neg he]
    refine ⟨by rw [hports]; exact hout, ⟨l', ?_, by rw [htaken']; exact hcarries⟩,
      fun hclosed => ?_⟩
    · rw [hports]
      exact (Compass.get_set_of_ne _ he _).trans hl'
    · rw [htaken']
      refine (h.linked e j hj).unheard ?_
      change s'.exchange.listening.get e = false at hclosed
      rw [hlisten] at hclosed
      exact hclosed

/-! ### Judging a frame -/

/-- An edge of the iteration in progress that is awaited is the next one of its direction. -/
theorem takenOn_of_awaiting (h : s.Sound P i v ends t) {d : Direction}
    (hd : s.round.awaiting.get d = true) :
    (s.station ends t).appliedOn d = t ∧ (s.station ends t).takenOn d = t := by
  have happlied : (s.station ends t).appliedOn d = t := by
    change t + (if s.round.awaiting.get d then 0 else 1) = t
    rw [hd]
    rfl
  refine ⟨happlied, ?_⟩
  rw [Station.takenOn, happlied, h.station.lookahead_of_awaiting rfl hd]
  rfl

theorem takenOn_of_not_awaiting (ends : Ends) (t : Nat) {d : Direction}
    (hd : s.round.awaiting.get d = false) :
    (s.station ends t).appliedOn d = t + 1 ∧ (s.station ends t).takenOn d =
      t + 1 + if (s.exchange.lookahead.get d).isSome then 1 else 0 := by
  have happlied : (s.station ends t).appliedOn d = t + 1 := by
    change t + (if s.round.awaiting.get d then 0 else 1) = t + 1
    rw [hd]
    rfl
  exact ⟨happlied, by rw [Station.takenOn, happlied]; rfl⟩

/-- An edge that is put to use is counted in its direction and in no other. -/
theorem appliedOn_afterApply {d : Direction} {l : Link} {edge : Edge} (e : Direction) :
    (((s.afterTake d l).afterApply d edge).station ends t).appliedOn e =
      if e = d then t + 1 else (s.station ends t).appliedOn e := by
  change t + (if (s.round.awaiting.set d false).get e then 0 else 1) = _
  rw [Compass.get_set]
  by_cases he : e = d
  · rw [if_pos he, if_pos he]
    rfl
  · rw [if_neg he, if_neg he]
    rfl

theorem takenOn_afterApply (h : s.Sound P i v ends t) {d : Direction} {l : Link} {edge : Edge}
    (hd : s.round.awaiting.get d = true) (e : Direction) :
    (((s.afterTake d l).afterApply d edge).station ends t).takenOn e =
      if e = d then (s.station ends t).takenOn d + 1 else (s.station ends t).takenOn e := by
  rw [Station.takenOn, appliedOn_afterApply]
  change _ + (if (s.exchange.lookahead.get e).isSome then 1 else 0) = _
  by_cases he : e = d
  · subst he
    have hslot : s.exchange.lookahead.get e = none := h.station.lookahead_of_awaiting rfl hd
    rw [if_pos rfl, if_pos rfl, (h.takenOn_of_awaiting hd).2, hslot]
    rfl
  · rw [if_neg he, if_neg he]
    rfl

/-- A parked edge is counted in its direction and in no other. -/
theorem takenOn_afterPark {d : Direction} {l : Link} {m : EdgeMessage}
    (hd : s.exchange.lookahead.get d = none) (e : Direction) :
    (((s.afterTake d l).afterPark d m).station ends t).takenOn e =
      if e = d then (s.station ends t).takenOn d + 1 else (s.station ends t).takenOn e := by
  rw [Station.takenOn]
  change (s.station ends t).appliedOn e +
    (if ((s.exchange.lookahead.set d (some m)).get e).isSome then 1 else 0) = _
  rw [Compass.get_set]
  by_cases he : e = d
  · subst he
    rw [if_pos rfl, if_pos rfl, Station.takenOn]
    change _ = _ + (if (s.exchange.lookahead.get e).isSome then 1 else 0) + 1
    rw [hd]
    rfl
  · rw [if_neg he, if_neg he]
    rfl

/-- Putting the awaited edge of a direction to use keeps a session sound. -/
theorem afterApply (h : s.Sound P i v ends t) {d : Direction} {l : Link} {j : Nat}
    (hopen : s.exchange.listening.get d = true) (hd : s.round.awaiting.get d = true)
    (hj : P.mate i d = some j)
    (hl : l.Carries P j d.opposite ((s.station ends t).takenOn d + 1) (v.sent d) (!v.gone d)
      true) :
    ((s.afterTake d l).afterApply d ((P.edges j t).get d.opposite)).Sound P i v ends t where
  station := by
    refine station_sound h.station.edgeLength h.station.sendOrder
      ⟨h.follows.lt, h.follows.iteration, h.follows.outgoing, h.follows.sends, ?_, fun e he => ?_⟩
      (fun e m hm => ?_) (fun e => ?_) h.station.alone
    · have hcount := Compass.count_set_false _ hd
      have := h.follows.receives
      change s.round.receives - 1 = (s.round.awaiting.set d false).count
      omega
    · refine h.follows.joined e ?_
      change (s.round.awaiting.set d false).get e = true at he
      rw [Compass.get_set] at he
      split at he
      · cases he
      · exact he
    · obtain ⟨k, hk, hmsg, hfalse⟩ := h.kept hm
      have he : e ≠ d := by
        rintro rfl
        rw [hd] at hfalse
        cases hfalse
      refine ⟨k, hk, ?_, ?_⟩
      · rw [appliedOn_afterApply, if_neg he]
        exact hmsg
      · exact (Compass.get_set_of_ne _ he _).trans hfalse
    · rw [appliedOn_afterApply]
      change (s.incoming.set d _).get e = _
      rw [Compass.get_set]
      by_cases he : e = d
      · subst he
        rw [if_pos rfl, if_pos rfl, Plan.heard, hj]
      · rw [if_neg he, if_neg he]
        exact h.station.incoming e
  reliable := h.reliable
  linked := by
    refine h.linked_of_taken rfl rfl (fun _ => rfl) (h.takenOn_afterApply hd) hopen fun k hk => ?_
    obtain rfl := Option.some.inj (hj.symm.trans hk)
    exact hl

/-- Parking the edge of the next iteration keeps a session sound. -/
theorem afterPark (h : s.Sound P i v ends t) {d : Direction} {l : Link} {j : Nat}
    (hopen : s.exchange.listening.get d = true) (hd : s.round.awaiting.get d = false)
    (hslot : s.exchange.lookahead.get d = none) (hj : P.mate i d = some j)
    (hl : l.Carries P j d.opposite ((s.station ends t).takenOn d + 1) (v.sent d) (!v.gone d)
      true) :
    ((s.afterTake d l).afterPark d (P.message j d.opposite (t + 1))).Sound P i v ends t where
  station := by
    refine station_sound h.station.edgeLength h.station.sendOrder
      ⟨h.follows.lt, h.follows.iteration, h.follows.outgoing, h.follows.sends, h.follows.receives,
        h.follows.joined⟩ (fun e m hm => ?_) h.station.incoming h.station.alone
    change (s.exchange.lookahead.set d (some _)).get e = some m at hm
    rw [Compass.get_set] at hm
    split at hm
    · next he =>
      subst he
      obtain rfl := Option.some.inj hm
      refine ⟨j, hj, ?_, hd⟩
      rw [← (takenOn_of_not_awaiting ends t hd).1]
      rfl
    · exact h.kept hm
  reliable := h.reliable
  linked := by
    refine h.linked_of_taken rfl rfl (fun _ => rfl) (takenOn_afterPark hslot) hopen fun k hk => ?_
    obtain rfl := Option.some.inj (hj.symm.trans hk)
    exact hl

/-- A session that differs in one taken frame has one frame less to come. -/
theorem advanced_of_taken (h : s.Sound P i v ends t) {s' : Session} {d : Direction}
    (horder : s'.exchange.sendOrder = s.exchange.sendOrder)
    (hsent : ∀ e, (s'.station ends t).sentOn e = (s.station ends t).sentOn e)
    (htaken : ∀ e, (s'.station ends t).takenOn e =
      if e = d then (s.station ends t).takenOn d + 1 else (s.station ends t).takenOn e)
    (hcounted : s'.stats.sent + s'.stats.received = s.stats.sent + s.stats.received + 1)
    (hmem : d ∈ s.exchange.sendOrder) (hlt : (s.station ends t).takenOn d < P.rounds) :
    s.Advanced s' ends t P.rounds 1 := by
  refine ⟨Station.toCome_succ horder h.station.nodup_sendOrder hmem ?_ fun e he => ?_, hcounted⟩
  · rw [hsent, htaken, if_pos rfl]
    omega
  · rw [hsent, htaken, if_neg he]
    exact ⟨rfl, rfl⟩

/-- **A frame that is taken is put to use or parked.** -/
theorem judge (h : s.Sound P i v ends t) {d : Direction} {l l' : Link} {f : Frame}
    (hopen : s.exchange.listening.get d = true) (hl : s.ports.inbound.get d = some l)
    (harr : l.arrival = .frame f l') : ∃ act next,
      (s.afterTake d l').judge d f = .acted act next ∧ next.Sound P i v ends t ∧
      act.moves = true ∧ s.Advanced next ends t P.rounds 1 := by
  obtain ⟨j, hj, rfl, hcarries, hrounds, hahead⟩ := h.taken hopen hl harr
  have hdecode := P.decode_frame j d.opposite ((s.station ends t).takenOn d)
  rw [← h.station.edgeLength] at hdecode
  change EdgeMessage.decode (s.afterTake d l').exchange.edgeLength _ = _ at hdecode
  have hdirection : (P.message j d.opposite ((s.station ends t).takenOn d)).direction = d :=
    d.opposite_opposite
  have hmem : d ∈ s.exchange.sendOrder := (h.station.mem_sendOrder d).2 (by rw [hj]; rfl)
  have hparity : (s.afterTake d l').round.parity = .ofRound t := by
    change s.round.parity = _
    rw [Round.parity, h.follows.iteration]
    rfl
  have hmessage : (P.message j d.opposite ((s.station ends t).takenOn d)).parity =
      .ofRound ((s.station ends t).takenOn d) := rfl
  simp only [Session.judge, hdecode, hdirection, ne_eq, not_true_eq_false, if_false, hparity,
    hmessage]
  cases hd : s.round.awaiting.get d with
  | true =>
    have htaken := (h.takenOn_of_awaiting hd).2
    refine ⟨.applied d (P.frame j d.opposite ((s.station ends t).takenOn d)),
      (s.afterTake d l').afterApply d ((P.edges j t).get d.opposite), ?_,
      h.afterApply hopen hd hj hcarries, rfl,
      h.advanced_of_taken rfl (fun _ => rfl) (h.takenOn_afterApply hd) ?_ hmem hrounds⟩
    · rw [htaken, if_pos rfl, if_pos (show (s.afterTake d l').round.awaiting.get d = true from hd)]
      rfl
    · exact (Nat.add_assoc _ _ _).symm
  | false =>
    have htaken := (takenOn_of_not_awaiting ends t hd).2
    have hslot : s.exchange.lookahead.get d = none := by
      rw [← Option.not_isSome_iff_eq_none]
      intro hsome
      rw [hsome, if_pos rfl] at htaken
      omega
    rw [hslot, Option.isSome_none, if_neg Bool.false_ne_true, Nat.add_zero] at htaken
    refine ⟨.parked d (P.frame j d.opposite ((s.station ends t).takenOn d)),
      (s.afterTake d l').afterPark d (P.message j d.opposite (t + 1)), ?_,
      h.afterPark hopen hd hslot hj hcarries, rfl,
      h.advanced_of_taken rfl (fun _ => rfl) (takenOn_afterPark hslot) ?_ hmem hrounds⟩
    · have hfree : ¬ ((s.afterTake d l').exchange.lookahead.get d).isSome = true := by
        rw [show (s.afterTake d l').exchange.lookahead.get d = none from hslot]
        exact Bool.false_ne_true
      rw [htaken, if_neg (Parity.ofRound_succ_ne t), if_neg hfree]
    · exact (Nat.add_assoc _ _ _).symm

/-! ### Whole turns -/

/-- A link whose sender is gone and which is empty may be left alone. -/
theorem afterHangUp (h : s.Sound P i v ends t) {d : Direction} {l : Link}
    (hl : s.ports.inbound.get d = some l) (harr : l.arrival = .hungUp) :
    (s.afterHangUp d).Sound P i v ends t where
  station := by
    refine station_sound h.station.edgeLength h.station.sendOrder
      ⟨h.follows.lt, h.follows.iteration, h.follows.outgoing, h.follows.sends, h.follows.receives,
        h.follows.joined⟩ (fun e m hm => h.kept hm) h.station.incoming (fun e he => ?_)
    change (s.exchange.listening.set d false).get e = false
    rw [Compass.get_set]
    split
    · rfl
    · exact h.station.alone e he
  reliable := h.reliable
  linked e j hj := by
    refine ⟨(h.linked e j hj).outbound, (h.linked e j hj).inbound, fun hclosed => ?_⟩
    change (s.exchange.listening.set d false).get e = false at hclosed
    rw [Compass.get_set] at hclosed
    split at hclosed
    · next he =>
      subst he
      obtain ⟨l₀, hl₀, hcarries⟩ := (h.linked e j hj).inbound
      obtain rfl : l = l₀ := Option.some.inj (hl.symm.trans hl₀)
      change v.gone e = true ∧ (s.station ends t).takenOn e = v.sent e
      rcases Nat.lt_or_ge ((s.station ends t).takenOn e) (v.sent e) with hlt | hge
      · obtain ⟨l', harr', -⟩ := hcarries.arrival hlt
        rw [harr] at harr'
        cases harr'
      · have heq := Nat.le_antisymm hcarries.le hge
        refine ⟨?_, heq⟩
        rw [heq] at hcarries
        rw [hcarries.arrival_self] at harr
        cases hgone : v.gone e with
        | true => rfl
        | false =>
          rw [hgone] at harr
          cases harr
    · exact (h.linked e j hj).unheard hclosed

/-- The link of an awaited edge has not been seen closed. -/
theorem heard (h : s.Sound P i v ends t) {d : Direction} (hd : s.round.awaiting.get d = true) :
    s.exchange.listening.get d = true := by
  obtain ⟨j, hj⟩ := Option.isSome_iff_exists.1 (h.follows.joined d hd)
  cases hopen : s.exchange.listening.get d with
  | true => rfl
  | false =>
    obtain ⟨hgone, htaken⟩ := (h.linked d j hj).unheard hopen
    have hsent := ((h.reliable d j hj).gone hgone).1
    have := (h.takenOn_of_awaiting hd).2
    have := h.follows.lt
    omega

end Sound

/-- What a turn of a sound session comes to. -/
inductive Turned (P : Plan) (i : Nat) (v : Vicinity) (ends : Ends) (t : Nat) (s : Session) :
    Turn → Prop where
  | acted {act : Act} {next : Session} : next.Sound P i v ends t →
      s.Advanced next ends t P.rounds act.moves.toNat → Turned P i v ends t s (.acted act next)
  | finished : s.exchange.unsent = 0 → s.round.receives = 0 → Turned P i v ends t s .finished
  | waiting : s.Blocked → s.Silent → ¬ (s.exchange.unsent = 0 ∧ s.round.receives = 0) →
      Turned P i v ends t s .waiting

/-- **A turn of a sound session acts, ends the round or waits.** -/
theorem Sound.turn (h : s.Sound P i v ends t) : Turned P i v ends t s s.turn := by
  have hdoes := s.does_turn
  generalize s.turn = turn at hdoes
  cases hdoes with
  | finished hsent hcome => exact .finished hsent hcome
  | unheard hawait hclosed =>
    rw [h.heard hawait] at hclosed
    cases hclosed
  | refused hsend hnext hoffer =>
    rcases h.offerNext hnext with ⟨l, hl, -⟩ | ⟨hl, -⟩
    · rw [hl] at hoffer
      cases hoffer
    · rw [hl] at hoffer
      cases hoffer
  | @sent d link hsend hnext hoffer =>
    rcases h.offerNext hnext with ⟨l, hl, hcarries⟩ | ⟨hl, -⟩
    · obtain rfl := Offer.taken.inj (hoffer.symm.trans hl)
      refine .acted (h.afterSend hsend hnext hcarries) ⟨?_, ?_⟩
      · refine Station.toCome_succ rfl h.station.nodup_sendOrder (List.mem_of_getElem? hnext) ?_
          fun e he => ⟨by rw [sentOn_afterSend hnext, if_neg he], rfl⟩
        have := h.follows.lt
        rw [Sound.sentOn_afterSend hnext, if_pos rfl, h.sentOn_target hnext]
        change _ + (P.rounds - (s.station ends t).takenOn d) + 1 = _
        omega
      · exact Nat.add_right_comm _ _ _
    · rw [hl] at hoffer
      cases hoffer
  | took hopen hlink harr =>
    obtain ⟨act, next, hact, hnext, hmoves, hadvanced⟩ := h.judge hopen hlink harr
    rw [hact]
    exact .acted hnext (by rw [hmoves]; exact hadvanced)
  | hungUp hopen hlink harr => exact .acted (h.afterHangUp hlink harr) ⟨rfl, rfl⟩
  | waiting _ hleft hblocked hsilent => exact .waiting hblocked hsilent hleft
  | aimless hsend hnext =>
    have := h.follows.sends
    have := List.getElem?_eq_none_iff.1 hnext
    omega
  | deaf hheard _ hcome hdeaf =>
    have hnone : s.round.awaiting.count = 0 := by
      refine (Compass.count_eq_zero_iff _).2 fun d => ?_
      cases hd : s.round.awaiting.get d with
      | false => rfl
      | true =>
        rw [← hdeaf d]
        exact (hheard d hd).symm
    exact absurd (h.follows.receives.trans hnone) hcome

/-! ### Whole polls -/

theorem Advanced.refl (s : Session) : s.Advanced s ends t P.rounds 0 := ⟨rfl, rfl⟩

theorem Advanced.trans {s₁ s₂ s₃ : Session} {n m k : Nat} (h₁ : s₁.Advanced s₂ ends t k n)
    (h₂ : s₂.Advanced s₃ ends t k m) : s₁.Advanced s₃ ends t k (n + m) := by
  have := h₁.toCome
  have := h₂.toCome
  have := h₁.counted
  have := h₂.counted
  exact ⟨by omega, by omega⟩

/-- What a poll of a sound session comes to. -/
structure Polled (P : Plan) (i : Nat) (v : Vicinity) (ends : Ends) (t : Nat) (s : Session)
    (p : Poll) : Prop where
  sound : p.session.Sound P i v ends t
  advanced : s.Advanced p.session ends t P.rounds (p.acts.countP Act.moves)
  verdict : ((∃ report, p.verdict = .finished report) ∧ p.session.exchange.unsent = 0 ∧
      p.session.round.receives = 0) ∨
    (p.verdict = .waiting ∧ p.session.Blocked ∧ p.session.Silent ∧
      ¬ (p.session.exchange.unsent = 0 ∧ p.session.round.receives = 0))

/-- **A poll of a sound session keeps it sound, and ends the round or waits.** -/
theorem Sound.poll (h : s.Sound P i v ends t) : Polled P i v ends t s s.poll := by
  induction s using Session.poll.induct with
  | case1 s act next hturn _ ih =>
    have hturned := h.turn
    rw [hturn] at hturned
    cases hturned with
    | acted hnext hadvanced =>
      have hrest := ih hnext
      rw [poll_of_acted hturn]
      refine ⟨hrest.sound, ?_, hrest.verdict⟩
      have hcount : (act :: next.poll.acts).countP Act.moves =
          act.moves.toNat + next.poll.acts.countP Act.moves := by
        rw [List.countP_cons, Nat.add_comm]
        cases act.moves <;> rfl
      rw [hcount]
      exact hadvanced.trans hrest.advanced
  | case2 s link frame cause next hturn =>
    have hturned := h.turn
    rw [hturn] at hturned
    cases hturned
  | case3 s link hturn =>
    have hturned := h.turn
    rw [hturn] at hturned
    cases hturned
  | case4 s hturn =>
    have hturned := h.turn
    rw [hturn] at hturned
    cases hturned with
    | finished hsent hcome =>
      rw [poll_of_finished hturn]
      exact ⟨h, .refl s, .inl ⟨⟨_, rfl⟩, hsent, hcome⟩⟩
  | case5 s hturn =>
    have hturned := h.turn
    rw [hturn] at hturned
    cases hturned with
    | waiting hblocked hsilent hleft =>
      rw [poll_of_waiting hturn]
      exact ⟨h, .refl s, .inr ⟨rfl, hblocked, hsilent, hleft⟩⟩
  | case6 s hturn =>
    have hturned := h.turn
    rw [hturn] at hturned
    cases hturned

/-- A session that has an edge to send to cells that are not behind, or an edge to take that has
been sent. -/
inductive Ready (P : Plan) (i : Nat) (v : Vicinity) (t : Nat) (s : Session) : Prop where
  | send : s.exchange.unsent ≠ 0 → (∀ d j, P.mate i d = some j → t ≤ v.taken d) → Ready P i v t s
  | take {d : Direction} : s.round.awaiting.get d = true → t < v.sent d → Ready P i v t s

theorem Ready.left (h : s.Sound P i v ends t) (hready : s.Ready P i v t) :
    ¬ (s.exchange.unsent = 0 ∧ s.round.receives = 0) := by
  rintro ⟨hsent, hcome⟩
  cases hready with
  | send hsend _ => exact hsend hsent
  | take hd _ =>
    rw [h.station.awaiting_of_receives rfl hcome] at hd
    cases hd

/-- **A poll of a session that is ready sends or takes a frame.** -/
theorem Ready.moves (h : s.Sound P i v ends t) (hready : s.Ready P i v t) :
    s.poll.acts.countP Act.moves ≠ 0 := by
  intro hstill
  obtain ⟨listening, hsession⟩ := poll_still s hstill
  have hpolled := h.poll
  have hsound := hpolled.sound
  rw [hsession] at hsound
  rcases hpolled.verdict with ⟨-, hover⟩ | ⟨-, hblocked, hsilent, -⟩
  · rw [hsession] at hover
    exact hready.left h hover
  · rw [hsession] at hblocked hsilent
    cases hready with
    | send hsend hahead =>
      rcases hblocked with hsent | ⟨d, hd, hfull⟩
      · exact hsend hsent
      · obtain ⟨j, hj⟩ := (hsound.target hd).1
        rcases hsound.offerNext hd with ⟨l, hl, -⟩ | ⟨-, hlt⟩
        · rw [hl] at hfull
          cases hfull
        · exact absurd (hahead d j hj) (Nat.not_le.2 hlt)
    | @take d hd hlt =>
      obtain ⟨j, hj⟩ := Option.isSome_iff_exists.1 (h.follows.joined d hd)
      obtain ⟨l, hl, hcarries⟩ := (hsound.linked d j hj).inbound
      have htaken := (hsound.takenOn_of_awaiting hd).2
      obtain ⟨l', harr, -⟩ := hcarries.arrival (htaken.symm ▸ hlt)
      rw [hsilent d l (hsound.heard hd) hl] at harr
      cases harr

end Session
end DiffusionMesh

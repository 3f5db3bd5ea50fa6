/-
# Why a call fails

A closed link matters only while it is needed:

| the call | a frame was faulty | a link that is needed is closed |
| --- | --- | --- |
| fails over a frame | the last one | |
| fails over a link | no | that link |
| finishes or waits | no | none |

A link is needed when the next edge is to be sent on it, or when an edge is to come over it
(`Trial.Cut`); a neighbor that has sent its edge and hung up is not missed. Main statement:
`Trial.failed_call`.
-/

import DiffusionMesh.Proofs.Halo.Blame
import DiffusionMesh.Proofs.Halo.Parting

namespace DiffusionMesh

/-- The number of edges sent is the place in the order of sending. -/
theorem Round.Sending.countP_sends {r : Round} {order : List Direction} {t : UInt32}
    {edges : Compass Edge} {acts : List Act} {unsent : Nat}
    (h : r.Sending order t edges acts unsent) : acts.countP Act.sends = r.nextSend := by
  have hsends := h.sends
  rw [List.countP_eq_length_filter, h.frames, List.length_map, List.length_take]
  omega

namespace Trial

variable {t : Trial} {c : Call} {acts past : List Act} {act : Act} {d : Direction} {frame : Frame}
  {s : Session} {cause : Failure}

/-! ### Closed links -/

/-- A link is closed that a call still needs after some acts: the receiver of the next edge is gone,
or an edge is to come over a link that is closed and drained, or was so when the cell looked. -/
inductive Cut (t : Trial) (neighbors : List Direction) (acts : List Act) (d : Direction) :
    Prop where
  | refused {l : Link} : neighbors[acts.countP Act.sends]? = some d →
      t.ports.outbound.get d = some l → l.receiverOpen = false → Cut t neighbors acts d
  | drained : d ∈ neighbors → (∀ a ∈ acts, ¬ a.uses d = true) →
      t.exchange.listening.get d = false ∨ t.ports.Drained d → Cut t neighbors acts d

variable {p : Poll} {q : Returned}

/-- A blameless call always has something to wait for. -/
theorem Blameless.not_stuck (h : t.Blameless c acts s) : s.turn ≠ .stuck := by
  intro hturn
  rcases Session.stuck_of_turn hturn with ⟨hunsent, htarget⟩ | ⟨hreceives, hnone⟩
  · have hsends := h.underway.sending.sends
    rw [Session.target?, h.underway.accounted.sendOrder, List.getElem?_eq_none_iff] at htarget
    omega
  · refine hreceives (h.underway.hearing.receives.trans ?_)
    exact s.round.awaiting.count_eq_zero_iff.2 hnone

/-- The next edge to be sent is told by the number of those sent. -/
theorem Blameless.target?_eq (h : t.Blameless c acts s) :
    s.target? = t.exchange.sendOrder[acts.countP Act.sends]? := by
  rw [Session.target?, h.underway.accounted.sendOrder, h.underway.sending.countP_sends]

/-- With every edge sent and none to come no link is needed. -/
theorem Blameless.not_cut_of_finished (h : t.Blameless c acts s) (hturn : s.turn = .finished)
    (u : Trial) : ¬ u.Cut t.exchange.sendOrder acts d := by
  obtain ⟨hunsent, hreceives⟩ := Session.finished_of_turn hturn
  rintro (⟨hnext, -, -⟩ | ⟨hmem, hunused, -⟩)
  · have hsends := h.underway.sending.sends
    rw [h.underway.sending.countP_sends] at hnext
    have hlt := (List.getElem?_eq_some_iff.1 hnext).1
    omega
  · have hcount := h.underway.hearing.receives.symm.trans hreceives
    have hnone := s.round.awaiting.count_eq_zero_iff.1 hcount
    cases (hnone d).symm.trans ((h.awaiting_iff d).2 ⟨hmem, hunused⟩)

/-- While a call waits, the next link is full and those it is to hear from are open. -/
theorem Blameless.not_cut_of_waiting (h : t.Blameless c acts s) (hturn : s.turn = .waiting)
    {u : Trial} (hexchange : u.exchange = s.exchange) (hports : u.ports = s.ports) :
    ¬ u.Cut t.exchange.sendOrder acts d := by
  obtain ⟨hheard, hblocked, hsilent⟩ := Session.waiting_of_turn hturn
  rintro (⟨hnext, hlink, hgone⟩ | ⟨hmem, hunused, hdrained⟩)
  · rw [← h.target?_eq] at hnext
    rw [hports] at hlink
    rcases hblocked with hsent | ⟨e, htarget, hfull⟩
    · have hsends := h.underway.sending.sends
      rw [Session.target?, h.underway.accounted.sendOrder] at hnext
      have hlt := (List.getElem?_eq_some_iff.1 hnext).1
      omega
    · obtain rfl := Option.some.inj (hnext.symm.trans htarget)
      simp [Session.offerNext, hlink, Link.offer, hgone] at hfull
  · have hopen := hheard d ((h.awaiting_iff d).2 ⟨hmem, hunused⟩)
    rcases hdrained with hclosed | ⟨l, hlink, -, hgone⟩
    · rw [hexchange, hopen] at hclosed
      cases hclosed
    · rw [hports] at hlink
      obtain ⟨-, hheld⟩ := Link.of_nothing (hsilent d l hopen hlink)
      cases hheld.symm.trans hgone

/-- **A call that does not fail needs no link that is closed.** -/
theorem Concluded.not_cut (h : t.Concluded c p q) (hok : ∀ cause, q.verdict ≠ .failed cause)
    (d : Direction) : ¬ q.trial.Cut t.exchange.sendOrder p.acts d := by
  obtain ⟨⟨past, s, hs, hends⟩, -, hexchange, hports, hverdict⟩ := h
  cases hends with
  | rejected | severed => exact absurd hverdict (hok _)
  | finished hturn => exact hs.not_cut_of_finished hturn _
  | idle hturn =>
    rcases hturn with hturn | hturn
    · exact hs.not_cut_of_waiting hturn hexchange hports
    · exact absurd hturn hs.not_stuck

/-- A call that fails over a link needs that link, and it is closed. -/
theorem Blameless.cut_of_severed (h : t.Blameless c acts s) (hturn : s.turn = .severed d)
    {u : Trial} (hexchange : u.exchange = s.exchange) (hports : u.ports = s.ports) :
    u.Cut t.exchange.sendOrder acts d := by
  rcases Session.severed_of_turn hturn with ⟨hawaiting, hclosed⟩ | ⟨htarget, hrefused⟩
  · obtain ⟨hmem, hunused⟩ := (h.awaiting_iff d).1 hawaiting
    exact .drained hmem hunused (.inl (hexchange ▸ hclosed))
  · rw [h.target?_eq] at htarget
    obtain ⟨l, hl⟩ := Option.isSome_iff_exists.1 (h.links d (List.mem_of_getElem? htarget))
    refine .refused htarget (hports ▸ hl) ?_
    simp only [Session.offerNext, hl, Link.offer] at hrefused
    split at hrefused
    · split at hrefused <;> cases hrefused
    · next hgone => exact Bool.not_eq_true _ ▸ hgone

/-- **A call fails over a faulty frame, the last one taken, or over a closed link.** -/
theorem Concluded.of_failed (h : t.Concluded c p q) (hfailed : q.verdict = .failed cause) :
    (∃ past d frame, LastTaken p.acts past d frame ∧ t.Faults c past d frame cause) ∨
      ∃ d, cause = .linkClosed t.exchange.cell d c.iteration ∧
        q.trial.Cut t.exchange.sendOrder p.acts d := by
  obtain ⟨⟨past, s, hs, hends⟩, -, hexchange, hports, hverdict⟩ := h
  cases hends with
  | @rejected d frame rest cause harrives hjudge =>
    cases hverdict.symm.trans hfailed
    exact .inl ⟨past, d, frame, lastTaken_concat.2 (.inl ⟨rfl, if_pos rfl⟩),
      (hs.judge_iff harrives).1 hjudge⟩
  | @severed d hturn =>
    cases hverdict.symm.trans hfailed
    rw [hs.cell, hs.underway.sending.iteration]
    exact .inr ⟨d, rfl, hs.cut_of_severed hturn hexchange hports⟩
  | finished | idle => cases hverdict.symm.trans hfailed

/-- **A call whose last frame is faulty fails**, for what is wrong with that frame. -/
theorem Concluded.failed (h : t.Concluded c p q) (hlast : LastTaken p.acts past d frame)
    (hfault : t.Faults c past d frame cause) : q.verdict = .failed cause := by
  obtain ⟨⟨before, s, hs, hends⟩, -, -, -, hverdict⟩ := h
  cases hends with
  | @rejected e f rest cause' harrives hjudge =>
    rcases lastTaken_concat.1 hlast with ⟨rfl, htaken⟩ | ⟨hquiet, -⟩
    · obtain ⟨rfl, rfl⟩ := Act.eq_of_taken htaken
      cases hjudge.symm.trans ((hs.judge_iff harrives).2 hfault)
      exact hverdict
    · cases hquiet
  | severed | finished | idle => exact absurd hfault (hs.frames _ _ _ hlast _)

/-! ### One failure after the other -/

variable {place : CellId}

theorem Concluded.malformed_iff (h : t.Concluded c p q) {fault : FrameFault} :
    q.verdict = .failed (.malformedFrame fault) ↔ ∃ past d frame, LastTaken p.acts past d frame ∧
      EdgeMessage.decode t.exchange.edgeLength frame = .error fault := by
  constructor
  · intro hfailed
    rcases h.of_failed hfailed with ⟨past, d, frame, hlast, hfault⟩ | ⟨d, hcause, -⟩
    · cases hfault with
      | malformed hdecode => exact ⟨past, d, frame, hlast, hdecode⟩
    · cases hcause
  · rintro ⟨past, d, frame, hlast, hdecode⟩
    exact h.failed hlast (.malformed hdecode)

theorem Concluded.misrouted_iff (h : t.Concluded c p q) {tagged link : Direction} :
    q.verdict = .failed (.misrouted place tagged link) ↔
      place = t.exchange.cell ∧ tagged ≠ link ∧ ∃ past frame p' edge,
        LastTaken p.acts past link frame ∧
        EdgeMessage.decode t.exchange.edgeLength frame = .ok ⟨tagged, p', edge⟩ := by
  constructor
  · intro hfailed
    rcases h.of_failed hfailed with ⟨past, d, frame, hlast, hfault⟩ | ⟨d, hcause, -⟩
    · cases hfault with
      | @misrouted message hdecode hlink => exact ⟨rfl, hlink, past, frame, _, _, hlast, hdecode⟩
    · cases hcause
  · rintro ⟨rfl, hlink, past, frame, p', edge, hlast, hdecode⟩
    exact h.failed hlast (.misrouted hdecode hlink)

theorem Concluded.secondEdge_iff (h : t.Concluded c p q) :
    q.verdict = .failed (.protocolViolation place d .secondEdge) ↔
      place = t.exchange.cell ∧ ∃ past frame edge, LastTaken p.acts past d frame ∧
        EdgeMessage.decode t.exchange.edgeLength frame = .ok ⟨d, .ofIteration c.iteration, edge⟩ ∧
        ∃ a ∈ past, a.uses d = true := by
  constructor
  · intro hfailed
    rcases h.of_failed hfailed with ⟨past, d, frame, hlast, hfault⟩ | ⟨d, hcause, -⟩
    · cases hfault with
      | secondEdge hdecode hused => exact ⟨rfl, past, frame, _, hlast, hdecode, hused⟩
    · cases hcause
  · rintro ⟨rfl, past, frame, edge, hlast, hdecode, hused⟩
    exact h.failed hlast (.secondEdge hdecode hused)

theorem Concluded.tooFarAhead_iff (h : t.Concluded c p q) :
    q.verdict = .failed (.protocolViolation place d .tooFarAhead) ↔
      place = t.exchange.cell ∧ ∃ past frame p' edge, LastTaken p.acts past d frame ∧
        EdgeMessage.decode t.exchange.edgeLength frame = .ok ⟨d, p', edge⟩ ∧
        p' ≠ .ofIteration c.iteration ∧ t.Occupied past d := by
  constructor
  · intro hfailed
    rcases h.of_failed hfailed with ⟨past, d, frame, hlast, hfault⟩ | ⟨d, hcause, -⟩
    · cases hfault with
      | tooFarAhead hdecode hother hkept =>
        exact ⟨rfl, past, frame, _, _, hlast, hdecode, hother, hkept⟩
    · cases hcause
  · rintro ⟨rfl, past, frame, p', edge, hlast, hdecode, hother, hkept⟩
    exact h.failed hlast (.tooFarAhead hdecode hother hkept)

theorem Concluded.cut_of_linkClosed (h : t.Concluded c p q) {iteration : UInt32}
    (hfailed : q.verdict = .failed (.linkClosed place d iteration)) :
    place = t.exchange.cell ∧ iteration = c.iteration ∧
      q.trial.Cut t.exchange.sendOrder p.acts d := by
  rcases h.of_failed hfailed with ⟨past, e, frame, -, hfault⟩ | ⟨e, hcause, hcut⟩
  · cases hfault
  · cases hcause
    exact ⟨rfl, rfl, hcut⟩

/-- There is no other way to fail. -/
theorem Concluded.failures (h : t.Concluded c p q) (hfailed : q.verdict = .failed cause) :
    (∃ fault, cause = .malformedFrame fault) ∨
      (∃ tagged link, cause = .misrouted t.exchange.cell tagged link) ∨
      (∃ d violation, cause = .protocolViolation t.exchange.cell d violation) ∨
      ∃ d, cause = .linkClosed t.exchange.cell d c.iteration := by
  rcases h.of_failed hfailed with ⟨past, d, frame, -, hfault⟩ | ⟨d, hcause, -⟩
  · cases hfault with
    | malformed => exact .inl ⟨_, rfl⟩
    | misrouted => exact .inr (.inl ⟨_, _, rfl⟩)
    | secondEdge | tooFarAhead => exact .inr (.inr (.inl ⟨_, _, rfl⟩))
  · exact .inr (.inr (.inr ⟨d, hcause⟩))

/-! ### Whatever happens in a trial -/

/-- A trial between two events: its frames and slots are accounted for, and its cell has a link to
each neighbor. -/
structure Ready (t : Trial) (cell : CellId) (S : Nat) (order : List Direction) : Prop where
  sound : t.Sound S order
  cell : t.exchange.cell = cell
  links : ∀ d ∈ order, (t.ports.outbound.get d).isSome = true

variable {cell : CellId} {S : Nat} {b : Direction → Bool}

theorem Ready.accounted (h : t.Ready cell S (Direction.all.filter b)) :
    t.exchange.Accounted t.exchange.edgeLength t.exchange.sendOrder t.log := by
  rw [h.sound.accounted.edgeLength, h.sound.accounted.sendOrder]
  exact h.sound.accounted

/-- A call keeps the cell and its links. -/
theorem Concluded.keeps (h : t.Concluded c p q) : q.trial.exchange.cell = t.exchange.cell ∧
    ∀ d ∈ t.exchange.sendOrder, (q.trial.ports.outbound.get d).isSome = true := by
  obtain ⟨⟨past, s, hs, hends⟩, -, hexchange, hports, -⟩ := h
  rw [hexchange, hports]
  cases hends with
  | rejected | severed | finished | idle => exact ⟨hs.cell, hs.links⟩

/-- Every call is concluded. -/
theorem Ready.concluded (h : t.Ready cell S (Direction.all.filter b)) (c : Call) :
    ∃ p, t.Concluded c p (t.call c) := by
  have horder := h.sound.accounted.sendOrder
  exact (blameless_start h.accounted (t.exchange.neighborCount_eq horder)
    (fun d hd => h.links d (horder ▸ hd)) c).run rfl c.visits

theorem Ready.after (h : t.Ready cell S (Direction.all.filter b)) (events : List Event) :
    (t.after events).Ready cell S (Direction.all.filter b) := by
  induction events generalizing t with
  | nil => exact h
  | cons e rest ih =>
    refine ih ⟨h.sound.after [e], ?_, fun d hd => ?_⟩
    · cases e with
      | deed a => exact (congrArg Exchange.cell (t.deeds_keep [a]).2.1).trans h.cell
      | call c =>
        obtain ⟨p, hp⟩ := h.concluded c
        exact hp.keeps.1.trans h.cell
    · cases e with
      | deed a => exact (t.isSome_outbound_deed a d).trans (h.links d hd)
      | call c =>
        obtain ⟨p, hp⟩ := h.concluded c
        exact hp.keeps.2 d (h.sound.accounted.sendOrder ▸ hd)

/-- A new exchange is ready. -/
theorem ready_outset {x : Exchange} {ports : Ports}
    (h : Exchange.create cell S (ports.outbound.map Option.isSome)
      (ports.inbound.map Option.isSome) = .ok x) (stats : Stats) :
    (outset x ports stats).Ready cell S (ports.outbound.directions Option.isSome) := by
  refine ⟨sound_outset h stats, ?_, fun d hd => (List.mem_filter.1 hd).2⟩
  unfold Exchange.create at h
  split at h
  · cases h
  · cases h
    rfl

/-- At first a cell listens to all its neighbors. -/
theorem parted_outset {x : Exchange} {ports : Ports} {deeds : List Deed}
    (h : Exchange.create cell S (ports.outbound.map Option.isSome)
      (ports.inbound.map Option.isSome) = .ok x) (hreturn : ports.NoReturn deeds) :
    x.Parted ports (ports.outbound.directions Option.isSome) deeds := by
  refine ⟨hreturn, fun d hd hclosed => ?_⟩
  unfold Exchange.create at h
  split at h
  · cases h
  · next hpaired =>
    cases h
    have hsame := List.find?_eq_none.1 hpaired d (Direction.mem_all d)
    rw [bne_iff_ne, ne_eq, Decidable.not_not, Compass.get_map] at hsame
    cases (hsame.symm.trans (List.mem_filter.1 hd).2).symm.trans hclosed

end Trial

/-- **Why a call fails**, whatever the neighbors do and have done, and whatever calls there have
been: over the last frame it took, exactly when that has no edge in it, is meant for another link,
holds a second edge of the iteration, or one of another iteration for a slot that is in use; and
otherwise over a link that it needs and that is closed. There is no other way to fail, and as long
as there is such a link the call neither finishes nor waits. A link that the cell no longer listens
to is closed and drained, unless a neighbor comes back to an end that it has given up. -/
theorem Trial.failed_call {cell : CellId} {S : Nat} {x : Exchange} {ports : Ports}
    (h : Exchange.create cell S (ports.outbound.map Option.isSome)
      (ports.inbound.map Option.isSome) = .ok x) (stats : Stats) (events : List Event) (c : Call) :
    let neighbors := ports.outbound.directions Option.isSome
    let before := (outset x ports stats).after events
    let q := before.call c
    ∃ acts, before.Goes acts q.trial ∧
      (∀ fault, q.verdict = .failed (.malformedFrame fault) ↔
        ∃ past d frame, LastTaken acts past d frame ∧ EdgeMessage.decode S frame = .error fault) ∧
      (∀ place tagged link, q.verdict = .failed (.misrouted place tagged link) ↔
        place = cell ∧ tagged ≠ link ∧ ∃ past frame p edge, LastTaken acts past link frame ∧
          EdgeMessage.decode S frame = .ok ⟨tagged, p, edge⟩) ∧
      (∀ place d, q.verdict = .failed (.protocolViolation place d .secondEdge) ↔
        place = cell ∧ ∃ past frame edge, LastTaken acts past d frame ∧
          EdgeMessage.decode S frame = .ok ⟨d, .ofIteration c.iteration, edge⟩ ∧
          ∃ a ∈ past, a.uses d = true) ∧
      (∀ place d, q.verdict = .failed (.protocolViolation place d .tooFarAhead) ↔
        place = cell ∧ ∃ past frame p edge, LastTaken acts past d frame ∧
          EdgeMessage.decode S frame = .ok ⟨d, p, edge⟩ ∧ p ≠ .ofIteration c.iteration ∧
          before.Occupied past d) ∧
      (∀ place d t, q.verdict = .failed (.linkClosed place d t) →
        place = cell ∧ t = c.iteration ∧ q.trial.Cut neighbors acts d) ∧
      (∀ cause, q.verdict = .failed cause →
        (∃ fault, cause = .malformedFrame fault) ∨
        (∃ tagged link, cause = .misrouted cell tagged link) ∨
        (∃ d violation, cause = .protocolViolation cell d violation) ∨
        ∃ d, cause = .linkClosed cell d c.iteration) ∧
      ((∀ cause, q.verdict ≠ .failed cause) → ∀ d, ¬ q.trial.Cut neighbors acts d) ∧
      (ports.NoReturn (events.flatMap Event.deeds ++ c.visits.flatten) → ∀ d ∈ neighbors,
        q.trial.exchange.listening.get d = false → q.trial.ports.Drained d) := by
  intro neighbors before q
  have hready : before.Ready cell S neighbors := (ready_outset h stats).after events
  have hlength : before.exchange.edgeLength = S := hready.sound.accounted.edgeLength
  have hcell : before.exchange.cell = cell := hready.cell
  have horder : before.exchange.sendOrder = neighbors := hready.sound.accounted.sendOrder
  obtain ⟨p, hp⟩ := hready.concluded c
  have hgoes : before.Goes p.acts q.trial := by
    obtain ⟨acts, hended⟩ := hready.sound.ended_call c
    obtain rfl := List.append_cancel_left (hended.goes.log.symm.trans hp.log)
    exact hended.goes
  have hparted : ports.NoReturn (events.flatMap Event.deeds ++ c.visits.flatten) →
      q.trial.exchange.Parted q.trial.ports neighbors [] := by
    intro hreturn
    refine Exchange.Parted.call c (Exchange.Parted.after (t := outset x ports stats) events ?_)
    rw [List.append_nil]
    exact parted_outset h hreturn
  rw [← hcell, ← hlength, ← horder]
  exact ⟨p.acts, hgoes, fun _ => hp.malformed_iff, fun _ _ _ => hp.misrouted_iff,
    fun _ _ => hp.secondEdge_iff, fun _ _ => hp.tooFarAhead_iff,
    fun _ _ _ => hp.cut_of_linkClosed, fun _ => hp.failures, hp.not_cut,
    fun hreturn => horder ▸ (hparted hreturn).drained⟩

/-- A neighbor to the east hangs up without having sent its edge. -/
theorem Trial.failed_call_vanished :
    let ports : Ports := ⟨⟨none, none, some (.ofCapacity 1), none⟩,
      ⟨none, none, some (.ofCapacity 1), none⟩⟩
    let x : Exchange := ⟨⟨0⟩, 1, [.east], ⟨false, false, true, false⟩, .const none, 0⟩
    let c : Call := ⟨0, .const #[⟨1⟩], .const #[⟨0⟩], []⟩
    let q := ((outset x ports {}).after [.deed (.holdSender .east false)]).call c
    q.verdict = .failed (.linkClosed ⟨0⟩ .east 0) ∧ (∃ acts, q.trial.Cut [.east] acts .east) ∧
      q.trial.ports.Drained .east := by
  intro ports x c q
  have hcreate : Exchange.create ⟨0⟩ 1 (ports.outbound.map Option.isSome)
      (ports.inbound.map Option.isSome) = .ok x := by decide
  have hreturn : ports.NoReturn [.holdSender .east false] := by
    constructor
    · rintro (_ | _ | _ | _) l hl hopen <;> cases hl
      cases hopen
    · exact List.pairwise_singleton ..
  let start := x.start c.iteration c.outgoing c.incoming
  let s : Session := ⟨start.1, start.2.1, start.2.2.1,
    ((outset x ports {}).after [.deed (.holdSender .east false)]).ports, {}⟩
  let sent := s.afterSend .east ⟨1, [c.frame .east], true, true⟩
  have hsent : s.turn = .acted (.sent .east (c.frame .east)) sent := rfl
  have hclosed : sent.turn = .acted (.hungUp .east) (sent.afterHangUp .east) := rfl
  have hsevered : (sent.afterHangUp .east).turn = .severed .east := rfl
  have hpoll := Session.poll_of_severed hsevered
  have hverdict : q.verdict = .failed (.linkClosed ⟨0⟩ .east 0) := by
    change s.poll.verdict = _
    rw [Session.poll_of_acted hsent, Session.poll_of_acted hclosed, hpoll]
    rfl
  have hlistening : q.trial.exchange.listening.get .east = false := by
    change s.poll.session.exchange.listening.get .east = _
    rw [Session.poll_of_acted hsent, Session.poll_of_acted hclosed, hpoll]
    rfl
  obtain ⟨acts, -, -, -, -, -, hclosed, -, -, hdrained⟩ :=
    failed_call hcreate {} [.deed (.holdSender .east false)] c
  exact ⟨hverdict, ⟨acts, (hclosed _ _ _ hverdict).2.2⟩,
    hdrained hreturn .east (by decide) hlistening⟩

end DiffusionMesh

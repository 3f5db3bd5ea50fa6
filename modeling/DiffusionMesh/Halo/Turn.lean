/-
# Turns of an exchange

A round advances in turns. Each turn does the first of these that applies:

1. the round is over when nothing is left to send and nothing to come;
2. it fails when an edge is to come over a link that has been seen closed;
3. the next edge is sent, if its link has room; a link whose receiver is gone is a failure;
4. a frame is taken from the first link, in the order of directions, that has one; a link with
   nothing more to come is noted as closed;
5. the cell waits.

A poll is a sequence of turns up to the end of the round, a failure, or a wait. Main statement:
`work_lt_of_turn`, each turn leaves less to do, which is why a poll ends.
-/

import DiffusionMesh.Halo.Exchange

namespace DiffusionMesh

/-- An exchange with its round in progress, the edges taken so far, its links and the counters
of the mesh. -/
structure Session where
  exchange : Exchange
  round : Round
  incoming : Compass Edge
  ports : Ports
  stats : Stats
deriving DecidableEq, Repr

/-- The outcome of a turn. -/
inductive Turn where
  /-- Something was done, and the round goes on. -/
  | acted (act : Act) (next : Session)
  /-- A frame was taken that ends the round. -/
  | rejected (link : Direction) (frame : Frame) (cause : Failure) (next : Session)
  /-- A link is closed that the round still needs. -/
  | severed (link : Direction)
  | finished
  /-- Nothing can be sent or taken for now. -/
  | waiting
  /-- Something is left to do, but neither sending nor taking can ever apply. -/
  | stuck
deriving DecidableEq, Repr

namespace Session

variable (s : Session)

/-- The first direction whose edge is to come over a link that has been seen closed. -/
def severedLink : Option Direction :=
  Direction.all.find? fun d => s.round.awaiting.get d && !s.exchange.listening.get d

/-- The frame of the edge for a direction. -/
def frameFor (d : Direction) : Frame :=
  EdgeMessage.encode ⟨d.opposite, s.round.parity, s.round.outgoing.get d⟩

/-- The session after the edge for a direction has gone into its link. -/
def afterSend (d : Direction) (link : Link) : Session :=
  { s with
    exchange := { s.exchange with unsent := s.exchange.unsent - 1 }
    round := { s.round with
      nextSend := s.round.nextSend + 1
      report := { s.round.report with sent := s.round.report.sent + 1 } }
    ports := { s.ports with outbound := s.ports.outbound.set d (some link) }
    stats := { s.stats with sent := s.stats.sent + 1 } }

/-- The session after a frame has been taken from a link. -/
def afterTake (d : Direction) (link : Link) : Session :=
  { s with
    ports := { s.ports with inbound := s.ports.inbound.set d (some link) }
    stats := { s.stats with received := s.stats.received + 1 } }

/-- The session after an edge of this iteration has been put to use. -/
def afterApply (d : Direction) (edge : Edge) : Session :=
  { s with
    round := { s.round with
      awaiting := s.round.awaiting.set d false
      receives := s.round.receives - 1
      report := { s.round.report with received := s.round.report.received + 1 } }
    incoming := s.incoming.set d edge }

/-- The session after an edge has been kept for the next iteration. -/
def afterPark (d : Direction) (message : EdgeMessage) : Session :=
  { s with
    exchange := { s.exchange with lookahead := s.exchange.lookahead.set d (some message) }
    round := { s.round with
      report := { s.round.report with early := s.round.report.early + 1 } }
    stats := { s.stats with early := s.stats.early + 1 } }

/-- The session after a link has been seen closed. -/
def afterHangUp (d : Direction) : Session :=
  { s with
    exchange := { s.exchange with listening := s.exchange.listening.set d false } }

/-- Judges a frame that has been taken from a link: an edge of this iteration is put to use, one
of the other parity is kept, and anything else ends the round. -/
def judge (d : Direction) (frame : Frame) : Turn :=
  match EdgeMessage.decode s.exchange.edgeLength frame with
  | .error fault => .rejected d frame (.malformedFrame fault) s
  | .ok message =>
    if message.direction ≠ d then
      .rejected d frame (.misrouted s.exchange.cell message.direction d) s
    else if message.parity = s.round.parity then
      if s.round.awaiting.get d then .acted (.applied d frame) (s.afterApply d message.edge)
      else .rejected d frame (.protocolViolation s.exchange.cell d .secondEdge) s
    else if (s.exchange.lookahead.get d).isSome then
      .rejected d frame (.protocolViolation s.exchange.cell d .tooFarAhead) s
    else .acted (.parked d frame) (s.afterPark d message)

/-- Takes a frame from the first of the given links that has one, or notes the first one that
has nothing more to come. -/
def receiveFrom : List Direction → Option Turn
  | [] => none
  | d :: rest =>
    if s.exchange.listening.get d then
      match (s.ports.inbound.get d).map Link.arrival with
      | some (.frame frame link) => some ((s.afterTake d link).judge d frame)
      | some .hungUp => some (.acted (.hungUp d) (s.afterHangUp d))
      | _ => receiveFrom rest
    else receiveFrom rest

/-- Whether some inbound link has not been seen closed. -/
def canReceive : Bool := Direction.all.any fun d => s.exchange.listening.get d

/-- The part of a turn that takes frames. -/
def receive : Turn :=
  match s.receiveFrom Direction.all with
  | some turn => turn
  | none => if s.canReceive || s.exchange.unsent ≠ 0 then .waiting else .stuck

/-- Offers the next edge to its link. A missing link is as good as a closed one. -/
def offerNext (d : Direction) : Offer :=
  match s.ports.outbound.get d with
  | some link => link.offer (s.frameFor d)
  | none => .refused

/-- One turn. -/
def turn : Turn :=
  if s.exchange.unsent = 0 ∧ s.round.receives = 0 then .finished
  else
    match s.severedLink with
    | some d => .severed d
    | none =>
      if s.exchange.unsent = 0 then s.receive
      else
        match s.exchange.sendOrder[s.round.nextSend]? with
        | none => .stuck
        | some d =>
          match s.offerNext d with
          | .refused => .severed d
          | .taken link => .acted (.sent d (s.frameFor d)) (s.afterSend d link)
          | .full => s.receive

/-! ### Why a poll ends -/

/-- What a cell can still do about one inbound link: take its frames and see it closed. -/
def linkWork (d : Direction) : Nat :=
  if s.exchange.listening.get d then
    1 + (match s.ports.inbound.get d with
      | some link => link.queue.length
      | none => 0)
  else 0

/-- What is left to do without help from other cells. -/
def work : Nat := s.exchange.unsent + (Compass.ofFn s.linkWork).sum

theorem work_afterSend_lt {d : Direction} {link : Link} (h : s.exchange.unsent ≠ 0) :
    (s.afterSend d link).work < s.work := by
  have : Compass.ofFn (s.afterSend d link).linkWork = Compass.ofFn s.linkWork := rfl
  simp only [work, this]
  simp only [afterSend]
  omega

theorem ofFn_set_sum_lt {f f' : Direction → Nat} {d : Direction} (hlt : f' d < f d)
    (hne : ∀ e, e ≠ d → f' e = f e) : (Compass.ofFn f').sum < (Compass.ofFn f).sum := by
  have hset : Compass.ofFn f' = (Compass.ofFn f).set d (f' d) := by
    apply Compass.ext_get
    intro e
    rw [Compass.get_set]
    split
    · next h => rw [h, Compass.get_ofFn]
    · next h => rw [Compass.get_ofFn, Compass.get_ofFn, hne e h]
  rw [hset]
  exact Compass.sum_set_lt _ _ (by rw [Compass.get_ofFn]; exact hlt)

theorem work_afterTake_lt {d : Direction} {link link' : Link} {frame : Frame}
    (hopen : s.exchange.listening.get d = true) (hlink : s.ports.inbound.get d = some link)
    (htake : link.arrival = .frame frame link') : (s.afterTake d link').work < s.work := by
  have hqueue : link'.queue.length < link.queue.length := by
    unfold Link.arrival at htake
    split at htake
    · next f rest hq =>
      cases htake
      simp [hq]
    · split at htake <;> cases htake
  refine Nat.add_lt_add_left (ofFn_set_sum_lt (d := d) ?_ ?_) _
  · simp only [linkWork, afterTake, hopen, if_true, Compass.get_set_self, hlink]
    omega
  · intro e he
    simp only [linkWork, afterTake, Compass.get_set_of_ne _ he]

theorem work_afterHangUp_lt {d : Direction} (hopen : s.exchange.listening.get d = true) :
    (s.afterHangUp d).work < s.work := by
  refine Nat.add_lt_add_left (ofFn_set_sum_lt (d := d) ?_ ?_) _
  · simp only [linkWork, afterHangUp, hopen, if_true, Compass.get_set_self, Bool.false_eq_true,
      if_false]
    omega
  · intro e he
    simp only [linkWork, afterHangUp, Compass.get_set_of_ne _ he]

theorem work_judge_le {d : Direction} {frame : Frame} {act : Act} {next : Session}
    (h : s.judge d frame = .acted act next) : next.work = s.work := by
  unfold judge at h
  split at h
  · cases h
  · split at h
    · cases h
    · split at h
      · split at h
        · cases h; rfl
        · cases h
      · split at h
        · cases h
        · cases h; rfl

theorem work_receiveFrom_lt {ds : List Direction} {act : Act} {next : Session}
    (h : s.receiveFrom ds = some (.acted act next)) : next.work < s.work := by
  induction ds with
  | nil => cases h
  | cons d rest ih =>
    simp only [receiveFrom] at h
    split at h
    · next hopen =>
      split at h
      · next frame link' hlink =>
        obtain ⟨link, hl, ha⟩ := Option.map_eq_some_iff.1 hlink
        have hj := work_judge_le _ (Option.some.inj h)
        have ht := s.work_afterTake_lt hopen hl ha
        omega
      · cases h
        exact s.work_afterHangUp_lt hopen
      · exact ih h
    · exact ih h

theorem work_receive_lt {act : Act} {next : Session} (h : s.receive = .acted act next) :
    next.work < s.work := by
  unfold receive at h
  split at h
  · next t ht =>
    subst h
    exact s.work_receiveFrom_lt ht
  · split at h <;> cases h

/-- **Each turn leaves less to do.** -/
theorem work_lt_of_turn {act : Act} {next : Session} (h : s.turn = .acted act next) :
    next.work < s.work := by
  unfold turn at h
  split at h
  · cases h
  · split at h
    · cases h
    · split at h
      · exact s.work_receive_lt h
      · next hunsent =>
        split at h
        · cases h
        · split at h
          · cases h
          · cases h
            exact s.work_afterSend_lt hunsent
          · exact s.work_receive_lt h

end Session

/-- How a poll ended. -/
inductive Verdict (α : Type) where
  | finished (result : α)
  | failed (cause : Failure)
  | waiting
deriving Repr

/-- What a poll did, where it left the session, and how it ended. -/
structure Poll where
  acts : List Act
  session : Session
  verdict : Verdict Report

/-- Takes turns until the round is over, has failed, or has to wait. -/
def Session.poll (s : Session) : Poll :=
  match h : s.turn with
  | .acted act next =>
    have := s.work_lt_of_turn h
    let rest := next.poll
    { rest with acts := act :: rest.acts }
  | .rejected link frame cause next => ⟨[.rejected link frame], next, .failed cause⟩
  | .severed link => ⟨[], s, .failed (.linkClosed s.exchange.cell link s.round.iteration)⟩
  | .finished => ⟨[], s, .finished s.round.report⟩
  | .waiting => ⟨[], s, .waiting⟩
  | .stuck => ⟨[], s, .waiting⟩
termination_by s.work

end DiffusionMesh

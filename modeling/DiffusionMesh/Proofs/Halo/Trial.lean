/-
# An exchange among arbitrary neighbors

A trial is an exchange at links whose other ends are in the hands of neighbors that keep to no
protocol. Before a call and between any two of its polls they put any words into the links toward
the cell, take frames from the links away from it or leave them there, and give up their ends or take
hold of them again. A call finishes, fails, or is given up while it waits; the exchange goes into the
next call as it then is.

| what happens | to the frames toward the cell | to those away from it |
| --- | --- | --- |
| a neighbor's deed | some arrive | some depart |
| an act of the cell | some are taken | some are sent |

Whatever the neighbors do, the frames that have arrived on a link are those taken from it and those
on it (`Trial.Goes`).
-/

import DiffusionMesh.Proofs.Halo.Sending
import DiffusionMesh.Proofs.Halo.Tally

namespace DiffusionMesh

/-- What a neighbor does to the two links it shares with a cell. -/
inductive Deed where
  /-- Any words are put into the link toward the cell, if it has room. -/
  | put (link : Direction) (frame : Frame)
  /-- A frame is taken from the link away from the cell. -/
  | take (link : Direction)
  /-- The sending end of the link toward the cell is held from now on, or not. -/
  | holdSender (link : Direction) (held : Bool)
  /-- The receiving end of the link away from the cell is held from now on, or not. -/
  | holdReceiver (link : Direction) (held : Bool)

/-- A call of an exchange: its arguments, and what the neighbors do before each poll but the first.
The call is given up if it still waits after the last poll. -/
structure Call where
  iteration : UInt32
  outgoing : Compass Edge
  incoming : Compass Edge
  visits : List (List Deed)

/-- The frame of the edge for a direction. -/
def Call.frame (c : Call) (d : Direction) : Frame := outgoingFrame c.iteration c.outgoing d

/-- An exchange at its links, with what it has done and, by direction, the frames that have been put
into the links toward the cell and those that have left the links away from it. -/
structure Trial where
  exchange : Exchange
  ports : Ports
  stats : Stats
  log : List Act
  arrived : Compass (List Frame)
  departed : Compass (List Frame)

/-- How a call ended: what became of the trial and of the incoming edges. -/
structure Trial.Returned where
  trial : Trial
  incoming : Compass Edge
  verdict : Verdict Report

namespace Trial

/-- A trial before its first event. -/
def outset (x : Exchange) (ports : Ports) (stats : Stats) : Trial :=
  ⟨x, ports, stats, [], .ofFn ports.inQueue, .const []⟩

variable (t : Trial)

/-- The link toward the cell in a direction is changed, and frames arrive on it. -/
def arrive (d : Direction) (link : Link) (frames : List Frame) : Trial := { t with
  ports := { t.ports with inbound := t.ports.inbound.set d (some link) }
  arrived := t.arrived.set d (t.arrived.get d ++ frames) }

/-- The link away from the cell in a direction is changed, and frames depart from it. -/
def depart (d : Direction) (link : Link) (frames : List Frame) : Trial := { t with
  ports := { t.ports with outbound := t.ports.outbound.set d (some link) }
  departed := t.departed.set d (t.departed.get d ++ frames) }

/-- The trial after a deed of a neighbor. What is left on a link whose receiver goes is lost. -/
def deed : Deed → Trial
  | .put d frame =>
    match (t.ports.inbound.get d).map fun l : Link => l.offer frame with
    | some (.taken link) => t.arrive d link [frame]
    | _ => t
  | .take d =>
    match (t.ports.outbound.get d).map Link.arrival with
    | some (.frame frame link) => t.depart d link [frame]
    | _ => t
  | .holdSender d held =>
    match t.ports.inbound.get d with
    | some l => t.arrive d { l with senderOpen := held } []
    | none => t
  | .holdReceiver d held =>
    match t.ports.outbound.get d with
    | some l =>
      if held then t.depart d { l with receiverOpen := true } []
      else t.depart d l.closeReceiver l.queue
    | none => t

/-- A round of the exchange at its links. -/
def session (r : Round) (incoming : Compass Edge) : Session :=
  ⟨t.exchange, r, incoming, t.ports, t.stats⟩

/-- The trial after a poll. -/
def took (p : Poll) : Trial := { t with
  exchange := p.session.exchange
  ports := p.session.ports
  stats := p.session.stats
  log := t.log ++ p.acts }

/-- Polls a round until it is over, has failed, or is given up. -/
def run (t : Trial) (r : Round) (incoming : Compass Edge) : List (List Deed) → Returned
  | [] =>
    let p := (t.session r incoming).poll
    ⟨t.took p, p.session.incoming, p.verdict⟩
  | deeds :: rest =>
    let p := (t.session r incoming).poll
    match p.verdict with
    | .waiting => run (deeds.foldl deed (t.took p)) p.session.round p.session.incoming rest
    | verdict => ⟨t.took p, p.session.incoming, verdict⟩

/-- The trial after a call. -/
def call (c : Call) : Returned :=
  let (exchange, round, incoming, acts) := t.exchange.start c.iteration c.outgoing c.incoming
  { t with exchange := exchange, log := t.log ++ acts }.run round incoming c.visits

/-- What happens in a trial: a deed of a neighbor, or a call. -/
inductive Event where
  | deed (deed : Deed)
  | call (call : Call)

/-- The trial after an event. -/
def event : Event → Trial
  | .deed a => t.deed a
  | .call c => (t.call c).trial

/-- The trial after some events in turn. -/
def after (events : List Event) : Trial := events.foldl event t

/-! ### Frames that arrive and depart -/

/-- From one trial to a later one the cell has acted as stated. The frames that have arrived on a link
in the meantime, after those that were on it, are the frames taken and those on it now; what has left
a link, after what had left it, is what was on it and what has been sent. -/
structure Goes (t : Trial) (acts : List Act) (t' : Trial) : Prop where
  log : t'.log = t.log ++ acts
  inbound : ∀ d, ∃ more, t'.arrived.get d = t.arrived.get d ++ more ∧
    t.ports.inQueue d ++ more = framesTaken d acts ++ t'.ports.inQueue d
  outbound : ∀ d, t'.departed.get d ++ t'.ports.outQueue d =
    t.departed.get d ++ t.ports.outQueue d ++ acts.flatMap (Act.sentOn d)

variable {t} {t' t'' : Trial} {acts more : List Act} {d : Direction} {link l : Link}
  {frames : List Frame}

theorem Goes.refl (t : Trial) : t.Goes [] t :=
  ⟨(List.append_nil _).symm, fun _ => ⟨[], (List.append_nil _).symm, List.append_nil _⟩,
    fun _ => (List.append_nil _).symm⟩

theorem Goes.trans (h : t.Goes acts t') (h' : t'.Goes more t'') : t.Goes (acts ++ more) t'' := by
  refine ⟨by rw [h'.log, h.log, List.append_assoc], fun d => ?_, fun d => ?_⟩
  · obtain ⟨first, harrived, hqueue⟩ := h.inbound d
    obtain ⟨second, harrived', hqueue'⟩ := h'.inbound d
    refine ⟨first ++ second, ?_, ?_⟩
    · rw [harrived', harrived, List.append_assoc]
    · rw [← List.append_assoc, hqueue, List.append_assoc, hqueue', framesTaken_append,
        List.append_assoc]
  · rw [h'.outbound, h.outbound, List.flatMap_append, List.append_assoc]

/-- Frames arrive at the end of a link. -/
theorem goes_arrive (hl : t.ports.inbound.get d = some l) (hqueue : link.queue = l.queue ++ frames) :
    t.Goes [] (t.arrive d link frames) := by
  refine ⟨(List.append_nil _).symm, fun e => ?_, fun e => (List.append_nil _).symm⟩
  simp only [arrive, Ports.inQueue, Compass.get_set]
  by_cases he : e = d
  · subst he
    refine ⟨frames, by rw [if_pos rfl], ?_⟩
    rw [if_pos rfl, hl]
    exact hqueue.symm
  · exact ⟨[], by rw [if_neg he, List.append_nil], by rw [if_neg he, List.append_nil]; rfl⟩

/-- Frames depart from the head of a link. -/
theorem goes_depart (hl : t.ports.outbound.get d = some l) (hqueue : l.queue = frames ++ link.queue) :
    t.Goes [] (t.depart d link frames) := by
  refine ⟨(List.append_nil _).symm, fun e => ⟨[], (List.append_nil _).symm, List.append_nil _⟩,
    fun e => ?_⟩
  simp only [depart, Ports.outQueue, Compass.get_set, List.flatMap_nil, List.append_nil]
  by_cases he : e = d
  · subst he
    rw [if_pos rfl, if_pos rfl, hl, List.append_assoc]
    exact congrArg _ hqueue.symm
  · rw [if_neg he, if_neg he]

/-- A deed concerns the links alone. -/
theorem goes_deed (t : Trial) (a : Deed) : t.Goes [] (t.deed a) := by
  cases a with
  | put d frame =>
    rw [deed]
    split
    · next link h =>
      obtain ⟨l, hl, hoffer⟩ := Option.map_eq_some_iff.1 h
      exact goes_arrive hl (Link.queue_of_offer hoffer)
    · exact .refl t
  | take d =>
    rw [deed]
    split
    · next frame link h =>
      obtain ⟨l, hl, harrival⟩ := Option.map_eq_some_iff.1 h
      exact goes_depart hl (Link.queue_of_arrival harrival)
    · exact .refl t
  | holdSender d held =>
    rw [deed]
    split
    · next l hl => exact goes_arrive hl (List.append_nil _).symm
    · exact .refl t
  | holdReceiver d held =>
    rw [deed]
    split
    · next l hl =>
      split
      · exact goes_depart hl rfl
      · exact goes_depart hl (List.append_nil _).symm
    · exact .refl t

/-- Deeds leave the exchange and the counters alone. -/
theorem deeds_keep (t : Trial) (deeds : List Deed) : t.Goes [] (deeds.foldl deed t) ∧
    (deeds.foldl deed t).exchange = t.exchange ∧ (deeds.foldl deed t).stats = t.stats := by
  have hone : ∀ (t : Trial) a, (t.deed a).exchange = t.exchange ∧ (t.deed a).stats = t.stats := by
    intro t a
    cases a <;> simp only [deed] <;> repeat' split
    all_goals exact ⟨rfl, rfl⟩
  induction deeds generalizing t with
  | nil => exact ⟨.refl t, rfl, rfl⟩
  | cons a rest ih =>
    obtain ⟨hgoes, hexchange, hstats⟩ := ih (t.deed a)
    exact ⟨(t.goes_deed a).trans hgoes, hexchange.trans (hone t a).1, hstats.trans (hone t a).2⟩

/-- A poll takes frames from the links toward the cell and sends on those away from it. -/
theorem goes_took (t : Trial) (r : Round) (incoming : Compass Edge) :
    t.Goes (t.session r incoming).poll.acts (t.took (t.session r incoming).poll) := by
  have hledger := (t.session r incoming).ledger_poll
  refine ⟨rfl, fun d => ⟨[], (List.append_nil _).symm, ?_⟩, fun d => ?_⟩
  · rw [List.append_nil]
    exact hledger.inQueue d
  · rw [List.append_assoc]
    exact congrArg _ (hledger.outQueue d)

/-- The frames that have arrived are those taken and those on the link. -/
theorem Goes.arrived (h : t.Goes acts t')
    (harrived : ∀ d, t.arrived.get d = framesTaken d t.log ++ t.ports.inQueue d) (d : Direction) :
    t'.arrived.get d = framesTaken d t'.log ++ t'.ports.inQueue d := by
  obtain ⟨more, hmore, hqueue⟩ := h.inbound d
  rw [hmore, harrived, h.log, framesTaken_append, List.append_assoc, hqueue, List.append_assoc]

end Trial
end DiffusionMesh

/-
# What a completed exchange guarantees

A call of an exchange keeps several things in step: which directions it still awaits, the number of
edges to come, the slots, the place in the order of sending and its report. `Session.Underway` says
how, relative to the trial in which the call began:

| a direction | then |
| --- | --- |
| has a neighbor and is awaited | no frame from it has been put to use since the call began |
| has a neighbor and is not awaited | exactly one has (`Trial.Hears`), and its edge is the incoming one |
| has no neighbor | the incoming edge is that of the caller |

The start of a call, every act but the rejection of a frame, and every deed of a neighbor keep it so.
A call that finishes has nothing left to send and awaits nothing (`Trial.finished_call`).
-/

import DiffusionMesh.Proofs.Halo.Trial

namespace DiffusionMesh
namespace Trial

/-- The tally of a direction so far. -/
def tally (t : Trial) (d : Direction) : Tally := Tally.read d t.log

/-- Since a call began one frame from a direction has been put to use. It has the parity of the call
and its edge is the incoming one; it was taken since then, or was in the slot before. -/
def Hears (t : Trial) (c : Call) (log : List Act) (incoming : Compass Edge) (d : Direction) : Prop :=
  ∃ i frame edge, (framesTaken d log)[i]? = some frame ∧
    EdgeMessage.decode t.exchange.edgeLength frame = .ok ⟨d, .ofIteration c.iteration, edge⟩ ∧
    incoming.get d = edge ∧ (Tally.read d log).used = (t.tally d).used ++ [i] ∧
    ((t.tally d).next ≤ i ∨ (t.tally d).slot = some i ∧
      t.exchange.lookahead.get d = some ⟨d, .ofIteration c.iteration, edge⟩)

/-- Whether the slot of a direction holds a frame taken since a trial. -/
def filled (t : Trial) (log : List Act) (d : Direction) : Bool :=
  (Tally.read d log).slot.any fun i => decide ((t.tally d).next ≤ i)

/-- The edges that a round of a call has got so far, and those it is to get. -/
structure Hearing (t : Trial) (c : Call) (log : List Act) (r : Round) (incoming : Compass Edge) :
    Prop where
  awaits : ∀ d, r.awaiting.get d = true →
    d ∈ t.exchange.sendOrder ∧ (Tally.read d log).used = (t.tally d).used
  heard : ∀ d ∈ t.exchange.sendOrder, r.awaiting.get d = false → t.Hears c log incoming d
  others : ∀ d, d ∉ t.exchange.sendOrder → incoming.get d = c.incoming.get d
  receives : r.receives = r.awaiting.count
  taken : r.report.promoted + r.report.received + r.receives = t.exchange.sendOrder.length
  early : r.report.early = Direction.all.countP (t.filled log)

/-- The counters as a report has it. -/
def counted (t : Trial) (report : Report) : Stats where
  sent := t.stats.sent + report.sent
  received := t.stats.received + report.received + report.early
  early := t.stats.early + report.early

theorem counted_applied (t : Trial) (report : Report) :
    t.counted { report with received := report.received + 1 } =
      { t.counted report with received := (t.counted report).received + 1 } := by
  simp only [counted, Stats.mk.injEq, true_and, and_true]
  omega

theorem counted_parked (t : Trial) (report : Report) :
    t.counted { report with early := report.early + 1 } = { t.counted report with
      received := (t.counted report).received + 1
      early := (t.counted report).early + 1 } := by
  simp only [counted, Stats.mk.injEq, true_and]
  omega

/-- A session of a call that began in a trial and has acted as stated. -/
structure Underway (t : Trial) (c : Call) (acts : List Act) (s : Session) : Prop where
  accounted :
    s.exchange.Accounted t.exchange.edgeLength t.exchange.sendOrder (t.log ++ acts)
  hearing : t.Hearing c (t.log ++ acts) s.round s.incoming
  sending :
    s.round.Sending t.exchange.sendOrder c.iteration c.outgoing acts s.exchange.unsent
  stats : s.stats = t.counted s.round.report

variable {t : Trial} {c : Call} {log acts : List Act} {act : Act} {d : Direction}
  {r r' : Round} {incoming incoming' : Compass Edge} {s next : Session}

/-! ### One act -/

/-- What has been heard stays heard as long as nothing else is put to use. -/
theorem Hears.concat (h : t.Hears c log incoming d)
    (hused : (Tally.read d (log ++ [act])).used = (Tally.read d log).used)
    (hincoming : incoming'.get d = incoming.get d) : t.Hears c (log ++ [act]) incoming' d := by
  obtain ⟨i, frame, edge, hframe, hdecode, hedge, hi, hfrom⟩ := h
  exact ⟨i, frame, edge, getElem?_framesTaken hframe _, hdecode, hincoming.trans hedge,
    hused.trans hi, hfrom⟩

/-- An act that leaves all tallies alone. -/
theorem Hearing.quiet (h : t.Hearing c log r incoming)
    (hread : ∀ d, Tally.read d (log ++ [act]) = Tally.read d log)
    (hawaiting : r'.awaiting = r.awaiting) (hreceives : r'.receives = r.receives)
    (hpromoted : r'.report.promoted = r.report.promoted)
    (hreceived : r'.report.received = r.report.received)
    (hearly : r'.report.early = r.report.early) : t.Hearing c (log ++ [act]) r' incoming := by
  refine ⟨fun d hd => ?_, fun d hd hheard => ?_, h.others, ?_, ?_, ?_⟩
  · rw [hread]
    exact h.awaits d (hawaiting ▸ hd)
  · exact (h.heard d hd (hawaiting ▸ hheard)).concat (by rw [hread]) rfl
  · rw [hreceives, hawaiting, h.receives]
  · rw [hpromoted, hreceived, hreceives, h.taken]
  · rw [hearly, h.early]
    exact List.countP_congr fun d _ => by rw [filled, filled, hread]

/-- An edge of the call is put to use. -/
theorem Hearing.apply {s : Session} {frame : Frame} {rest : Link} {message : EdgeMessage}
    (h : t.Hearing c (t.log ++ acts) s.round s.incoming)
    (hreads : s.Reads d frame message) (hlength : s.exchange.edgeLength = t.exchange.edgeLength)
    (hparity : message.parity = .ofIteration c.iteration) (hawaiting : s.round.awaiting.get d = true) :
    t.Hearing c (t.log ++ acts ++ [.applied d frame])
      ((s.afterTake d rest).afterApply d message.edge).round
      ((s.afterTake d rest).afterApply d message.edge).incoming := by
  have hother : ∀ e, e ≠ d →
      Tally.read e (t.log ++ acts ++ [.applied d frame]) = Tally.read e (t.log ++ acts) :=
    fun e he => Tally.read_of_untaken (if_neg (Ne.symm he)) rfl
  have hself : Tally.read d (t.log ++ acts ++ [.applied d frame]) =
      { Tally.read d (t.log ++ acts) with
        next := (Tally.read d (t.log ++ acts)).next + 1
        used := (Tally.read d (t.log ++ acts)).used ++ [(Tally.read d (t.log ++ acts)).next] } := by
    rw [Tally.read_concat, Tally.note, if_pos rfl]
  obtain ⟨hmem, hused⟩ := h.awaits d hawaiting
  have hcount := s.round.awaiting.count_set_false hawaiting
  have hreceives := h.receives
  have htaken := h.taken
  simp only [Session.afterApply, Session.afterTake]
  refine ⟨fun e he => ?_, fun e he hheard => ?_, fun e he => ?_, ?_, ?_, ?_⟩
  · rw [Compass.get_set] at he
    split at he
    · cases he
    · next hne =>
      rw [hother e hne]
      exact h.awaits e he
  · by_cases hed : e = d
    · -- the frame that has just come out of the link is the one
      subst hed
      refine ⟨(Tally.read e (t.log ++ acts)).next, frame, message.edge,
        Tally.getElem?_next (if_pos rfl), ?_, Compass.get_set_self .., ?_,
        .inl (Tally.next_le e t.log acts)⟩
      · rw [← hlength, hreads.decode, ← hparity, ← hreads.direction]
      · rw [hself, hused]
    · rw [Compass.get_set_of_ne _ hed] at hheard
      exact (h.heard e he hheard).concat (by rw [hother e hed]) (Compass.get_set_of_ne _ hed _)
  · have hed : e ≠ d := fun hed => he (hed ▸ hmem)
    rw [Compass.get_set_of_ne _ hed]
    exact h.others e he
  · change s.round.receives - 1 = (s.round.awaiting.set d false).count
    omega
  · change s.round.report.promoted + (s.round.report.received + 1) + (s.round.receives - 1) = _
    omega
  · rw [h.early]
    refine List.countP_congr fun e _ => ?_
    by_cases hed : e = d
    · subst hed
      rw [filled, filled, hself]
    · rw [filled, filled, hother e hed]

/-- An edge of the next call is kept. -/
theorem Hearing.park {s : Session} {frame : Frame} {rest : Link} {message : EdgeMessage}
    (h : t.Hearing c (t.log ++ acts) s.round s.incoming)
    (hempty : (Tally.read d (t.log ++ acts)).slot = none) :
    t.Hearing c (t.log ++ acts ++ [.parked d frame])
      ((s.afterTake d rest).afterPark d message).round
      ((s.afterTake d rest).afterPark d message).incoming := by
  have hother : ∀ e, e ≠ d →
      Tally.read e (t.log ++ acts ++ [.parked d frame]) = Tally.read e (t.log ++ acts) :=
    fun e he => Tally.read_of_untaken (if_neg (Ne.symm he)) rfl
  have hself : Tally.read d (t.log ++ acts ++ [.parked d frame]) =
      { Tally.read d (t.log ++ acts) with
        next := (Tally.read d (t.log ++ acts)).next + 1
        slot := some (Tally.read d (t.log ++ acts)).next } := by
    rw [Tally.read_concat, Tally.note, if_pos rfl]
  have hused : ∀ e, (Tally.read e (t.log ++ acts ++ [.parked d frame])).used =
      (Tally.read e (t.log ++ acts)).used := by
    intro e
    by_cases hed : e = d
    · rw [hed, hself]
    · rw [hother e hed]
  refine ⟨fun e he => ?_, fun e he hheard => ?_, h.others, h.receives, h.taken, ?_⟩
  · rw [hused]
    exact h.awaits e he
  · exact (h.heard e he hheard).concat (hused e) rfl
  · have hsucc := countP_directions_succ (d := d) (p := t.filled (t.log ++ acts))
      (q := t.filled (t.log ++ acts ++ [.parked d frame])) ?_ ?_ fun e he => ?_
    · rw [hsucc, ← h.early]
      rfl
    · rw [filled, hempty]
      rfl
    · rw [filled, hself, Option.any_some, decide_eq_true_iff]
      exact Tally.next_le d t.log acts
    · rw [filled, filled, hother e he]

/-- **Every step but a rejection keeps a call underway.** -/
theorem Underway.step (h : t.Underway c acts s) (hstep : s.Step act next)
    (hact : act.rejects = false) : t.Underway c (acts ++ [act]) next := by
  have haccounted := h.accounted.step hstep
  have hsending := h.sending.step h.accounted.sendOrder hstep
  have hparity : s.round.parity = .ofIteration c.iteration := by
    rw [Round.parity, h.sending.iteration]
  rw [List.append_assoc] at haccounted
  cases hstep with
  | sent =>
    refine ⟨haccounted, ?_, hsending, ?_⟩
    · rw [← List.append_assoc]
      exact h.hearing.quiet (fun e => Tally.read_of_untaken rfl rfl) rfl rfl rfl rfl rfl
    · exact congrArg (fun stats : Stats => { stats with sent := stats.sent + 1 }) h.stats
  | applied _ hreads hmessage hawaiting =>
    refine ⟨haccounted, ?_, hsending, ?_⟩
    · rw [← List.append_assoc]
      exact h.hearing.apply hreads h.accounted.edgeLength (hmessage.trans hparity) hawaiting
    · change ({ s.stats with received := s.stats.received + 1 } : Stats) = _
      rw [h.stats]
      exact (t.counted_applied s.round.report).symm
  | parked _ hreads _ hfree =>
    refine ⟨haccounted, ?_, hsending, ?_⟩
    · rw [← List.append_assoc]
      exact h.hearing.park (h.accounted.empty _ hfree)
    · change ({ s.stats with received := s.stats.received + 1, early := s.stats.early + 1 } : Stats) = _
      rw [h.stats]
      exact (t.counted_parked s.round.report).symm
  | rejected => cases hact
  | hungUp =>
    refine ⟨haccounted, ?_, hsending, h.stats⟩
    rw [← List.append_assoc]
    exact h.hearing.quiet (fun e => Tally.read_of_untaken rfl rfl) rfl rfl rfl rfl rfl

/-- A poll that does not fail keeps a call underway. -/
theorem Underway.poll (h : t.Underway c acts s) (hok : ∀ cause, s.poll.verdict ≠ .failed cause) :
    t.Underway c (acts ++ s.poll.acts) s.poll.session := by
  refine Session.poll_induction (motive := fun more s => (∀ a ∈ more, a.rejects = false) →
    t.Underway c (acts ++ more) s) s (fun _ => ?_) (fun hmotive hstep hmore => ?_)
    (s.rejects_of_poll hok)
  · rw [List.append_nil]
    exact h
  · rw [← List.append_assoc]
    exact (hmotive fun a ha => hmore a (List.mem_append_left _ ha)).step hstep
      (hmore _ (List.mem_append_right _ (List.mem_singleton_self _)))

/-! ### A whole call -/

/-- A call begins with the edges in the slots put to use, and nothing sent. -/
theorem underway_start
    (h : t.exchange.Accounted t.exchange.edgeLength t.exchange.sendOrder t.log)
    (hneighbors : t.exchange.neighborCount = Direction.all.countP t.exchange.hasNeighbor)
    (c : Call) (ports : Ports) :
    let start := t.exchange.start c.iteration c.outgoing c.incoming
    t.Underway c start.2.2.2 ⟨start.1, start.2.1, start.2.2.1, ports, t.stats⟩ := by
  intro start
  have hkept : ∀ d, (t.exchange.kept (.ofIteration c.iteration) d).isSome = true →
      t.exchange.hasNeighbor d = true := by
    intro d hd
    obtain ⟨edge, hedge⟩ := Option.isSome_iff_exists.1 hd
    obtain ⟨e, hm⟩ := t.exchange.lookahead_of_kept hedge
    exact List.contains_iff_mem.2 (h.kept d _ hm).1
  have hread := t.exchange.read_start c.iteration c.outgoing c.incoming t.log
  have hawaiting : ∀ d, start.2.1.awaiting.get d =
      (t.exchange.hasNeighbor d && (t.exchange.kept (.ofIteration c.iteration) d).isNone) :=
    Compass.get_ofFn _
  have hincoming : ∀ d, start.2.2.1.get d =
      (t.exchange.kept (.ofIteration c.iteration) d).getD (c.incoming.get d) := Compass.get_ofFn _
  obtain ⟨hreceives, htaken⟩ :=
    t.exchange.counts_start c.iteration c.outgoing c.incoming hneighbors hkept
  refine ⟨h.start _ _ _, ⟨fun d hd => ?_, fun d hd hheard => ?_, fun d hd => ?_, hreceives,
    htaken, ?_⟩, .start _ _ _ _, rfl⟩
  · rw [hawaiting, Bool.and_eq_true, Option.isNone_iff_eq_none] at hd
    refine ⟨List.contains_iff_mem.1 hd.1, ?_⟩
    rw [hread, if_neg (by rw [hd.2]; exact Bool.false_ne_true), tally]
  · rw [hawaiting, show t.exchange.hasNeighbor d = true from List.contains_iff_mem.2 hd,
      Bool.true_and, Option.isNone_eq_false_iff] at hheard
    obtain ⟨edge, hedge⟩ := Option.isSome_iff_exists.1 hheard
    obtain ⟨e, hm⟩ := t.exchange.lookahead_of_kept hedge
    obtain ⟨-, hdirection, i, frame, hslot, hframe, hdecode⟩ := h.kept d _ hm
    obtain rfl : e = d := hdirection
    refine ⟨i, frame, edge, getElem?_framesTaken hframe _, hdecode, ?_, ?_, .inr ⟨hslot, hm⟩⟩
    · rw [hincoming, hedge, Option.getD_some]
    · rw [hread, if_pos hheard, Tally.promote, hslot]
      rfl
  · rw [hincoming]
    cases hedge : t.exchange.kept (.ofIteration c.iteration) d with
    | none => rfl
    | some edge => exact absurd (List.contains_iff_mem.1 (hkept d (by rw [hedge]; rfl))) hd
  · refine (List.countP_eq_zero.2 fun d _ => ?_).symm
    rw [filled, hread, Bool.not_eq_true]
    split
    · rfl
    · cases hslot : (Tally.read d t.log).slot with
      | none => rfl
      | some i =>
        have hlt := ((Tally.proper_read d t.log).slot i hslot).1
        rw [Option.any_some, decide_eq_false_iff_not, tally]
        exact Nat.not_le.2 hlt

/-- How a call that began in a trial can have ended, after some acts. -/
structure Ended (t : Trial) (c : Call) (acts : List Act) (q : Returned) : Prop where
  goes : t.Goes acts q.trial
  accounted :
    q.trial.exchange.Accounted t.exchange.edgeLength t.exchange.sendOrder q.trial.log
  finished : ∀ report, q.verdict = .finished report → ∃ r,
    t.Underway c acts (q.trial.session r q.incoming) ∧ r.report = report ∧
    q.trial.exchange.unsent = 0 ∧ r.receives = 0

variable {b : Trial}

/-- A poll after which the call is over or given up. -/
theorem ended_took (hgoes : b.Goes acts t) (h : b.Underway c acts (t.session r incoming)) :
    let p := (t.session r incoming).poll
    b.Ended c (acts ++ p.acts) ⟨t.took p, p.session.incoming, p.verdict⟩ := by
  refine ⟨hgoes.trans (t.goes_took r incoming), ?_, fun report hreport => ?_⟩
  · change Exchange.Accounted _ _ _ (t.log ++ _)
    rw [hgoes.log]
    exact h.accounted.poll
  · obtain ⟨hsame, hunsent, hreceives⟩ := Session.poll_finished _ hreport
    refine ⟨_, h.poll fun cause hfailed => ?_, hsame.symm, hunsent, hreceives⟩
    cases hreport.symm.trans hfailed

/-- **Every way a round can go on** ends as a call can end. -/
theorem ended_run (visits : List (List Deed)) (hgoes : b.Goes acts t)
    (h : b.Underway c acts (t.session r incoming)) :
    ∃ more, b.Ended c (acts ++ more) (t.run r incoming visits) := by
  induction visits generalizing t r incoming acts with
  | nil => exact ⟨_, ended_took hgoes h⟩
  | cons deeds rest ih =>
    have hended : b.Ended c _ ⟨_, _, (t.session r incoming).poll.verdict⟩ := ended_took hgoes h
    have htook := hgoes.trans (t.goes_took r incoming)
    rw [run]
    cases hverdict : (t.session r incoming).poll.verdict with
    | waiting =>
      have hpoll := h.poll fun cause hfailed => by cases hverdict.symm.trans hfailed
      obtain ⟨hdeeds, hexchange, hstats⟩ := (t.took (t.session r incoming).poll).deeds_keep deeds
      have hnext : b.Underway c (acts ++ (t.session r incoming).poll.acts)
          ((deeds.foldl deed (t.took (t.session r incoming).poll)).session
            (t.session r incoming).poll.session.round
            (t.session r incoming).poll.session.incoming) := by
        refine ⟨?_, hpoll.hearing, ?_, hstats.trans hpoll.stats⟩
        · change Exchange.Accounted (deeds.foldl deed _).exchange _ _ _
          rw [hexchange]
          exact hpoll.accounted
        · change Round.Sending _ _ _ _ _ (deeds.foldl deed _).exchange.unsent
          rw [hexchange]
          exact hpoll.sending
      have hthere := htook.trans hdeeds
      rw [List.append_nil] at hthere
      obtain ⟨more, hmore⟩ := ih hthere hnext
      exact ⟨_, List.append_assoc .. ▸ hmore⟩
    | finished report =>
      rw [hverdict] at hended
      exact ⟨_, hended⟩
    | failed cause =>
      rw [hverdict] at hended
      exact ⟨_, hended⟩

/-- A trial whose exchange is accounted for, and whose frames are. -/
structure Sound (t : Trial) (S : Nat) (order : List Direction) : Prop where
  accounted : t.exchange.Accounted S order t.log
  arrived : ∀ d, t.arrived.get d = framesTaken d t.log ++ t.ports.inQueue d

variable {S : Nat} {p : Direction → Bool}

/-- **Every call ends**, finished, failed or given up, with its acts accounted for. -/
theorem Sound.ended_call (h : t.Sound S (Direction.all.filter p)) (c : Call) :
    ∃ acts, t.Ended c acts (t.call c) := by
  have haccounted : t.exchange.Accounted t.exchange.edgeLength t.exchange.sendOrder t.log := by
    rw [h.accounted.edgeLength, h.accounted.sendOrder]
    exact h.accounted
  have hneighbors := t.exchange.neighborCount_eq h.accounted.sendOrder
  have hunderway := underway_start haccounted hneighbors c t.ports
  have hgoes : t.Goes (t.exchange.start c.iteration c.outgoing c.incoming).2.2.2
      { t with
        exchange := (t.exchange.start c.iteration c.outgoing c.incoming).1
        log := t.log ++ (t.exchange.start c.iteration c.outgoing c.incoming).2.2.2 } := by
    have hframes := Act.frames_of_promotes
      (t.exchange.promotes_start c.iteration c.outgoing c.incoming)
    refine ⟨rfl, fun d => ⟨[], (List.append_nil _).symm, ?_⟩, fun d => ?_⟩
    · rw [framesTaken, (hframes d).2, List.append_nil, List.nil_append]
    · rw [(hframes d).1, List.append_nil]
  obtain ⟨more, hmore⟩ := ended_run c.visits hgoes hunderway
  exact ⟨_, hmore⟩

/-- **Whatever happens in a trial**, its exchange and its frames stay accounted for. -/
theorem Sound.after (h : t.Sound S (Direction.all.filter p)) (events : List Event) :
    (t.after events).Sound S (Direction.all.filter p) := by
  induction events generalizing t with
  | nil => exact h
  | cons e rest ih =>
    refine ih ?_
    cases e with
    | deed a =>
      obtain ⟨hgoes, hexchange, -⟩ := t.deeds_keep [a]
      refine ⟨?_, hgoes.arrived h.arrived⟩
      change Exchange.Accounted (t.deed a).exchange _ _ (t.deed a).log
      rw [show (t.deed a).exchange = t.exchange from hexchange,
        show (t.deed a).log = t.log from hgoes.log.trans (List.append_nil _)]
      exact h.accounted
    | call c =>
      obtain ⟨acts, hended⟩ := h.ended_call c
      refine ⟨?_, hended.goes.arrived h.arrived⟩
      have haccounted := hended.accounted
      rw [h.accounted.edgeLength, h.accounted.sendOrder] at haccounted
      exact haccounted

/-- What a new exchange is like. -/
theorem sound_outset {cell : CellId} {x : Exchange} {ports : Ports}
    (h : Exchange.create cell S (ports.outbound.map Option.isSome)
      (ports.inbound.map Option.isSome) = .ok x) (stats : Stats) :
    (outset x ports stats).Sound S (ports.outbound.directions Option.isSome) := by
  unfold Exchange.create at h
  split at h
  · cases h
  · next hpaired =>
    cases h
    refine ⟨⟨rfl, ?_, fun d hd => ?_, fun d _ => rfl, fun d m hm => ?_, fun d => rfl⟩,
      Compass.get_ofFn _⟩
    · refine List.filter_congr fun d _ => ?_
      rw [Compass.get_map]
      rfl
    · change (ports.inbound.map Option.isSome).get d = true at hd
      have hsame := List.find?_eq_none.1 hpaired d (Direction.mem_all d)
      rw [bne_iff_ne, ne_eq, Decidable.not_not, hd, Compass.get_map] at hsame
      exact List.mem_filter.2 ⟨Direction.mem_all d, hsame⟩
    · change (Compass.const none).get d = some m at hm
      rw [Compass.get_const] at hm
      cases hm

end Trial

/-- **What a call that finishes guarantees**, whatever the neighbors do and have done, and whatever
calls there have been. For each neighbor the incoming edge is that of exactly one frame, the `i`-th
that has arrived from there: it is meant for this direction, has the parity of the call and the length
of an edge, and has been taken during the call or was in the slot before. Each time that an edge has
ever been put to use there was another frame for it. The edge of a direction without a neighbor is the
caller's. To each neighbor, in the order of directions, exactly one frame has been sent. The report
counts the edges sent, those taken and promoted, one for each neighbor, and the slots newly filled; the
counters have grown accordingly. -/
theorem Trial.finished_call {cell : CellId} {S : Nat} {x : Exchange} {ports : Ports}
    (h : Exchange.create cell S (ports.outbound.map Option.isSome)
      (ports.inbound.map Option.isSome) = .ok x) (stats : Stats) (events : List Event) (c : Call) :
    let neighbors := ports.outbound.directions Option.isSome
    let before := (outset x ports stats).after events
    let q := before.call c
    ∀ report, q.verdict = .finished report →
      (∀ d ∈ neighbors, ∃ i frame edge,
        (q.trial.arrived.get d)[i]? = some frame ∧
        EdgeMessage.decode S frame = .ok ⟨d, .ofIteration c.iteration, edge⟩ ∧
        edge.size = S ∧ q.incoming.get d = edge ∧
        (q.trial.tally d).used = (before.tally d).used ++ [i] ∧
        ((before.tally d).next ≤ i ∨ (before.tally d).slot = some i ∧
          before.exchange.lookahead.get d = some ⟨d, .ofIteration c.iteration, edge⟩)) ∧
      (∀ d, (q.trial.tally d).used.Nodup ∧
        (q.trial.tally d).used.length = q.trial.log.countP (Act.uses d)) ∧
      (∀ d, d ∉ neighbors → q.incoming.get d = c.incoming.get d) ∧
      (∃ acts, q.trial.log = before.log ++ acts ∧
        acts.filter Act.sends = neighbors.map fun d => .sent d (c.frame d)) ∧
      (∀ d, q.trial.departed.get d ++ q.trial.ports.outQueue d =
        before.departed.get d ++ before.ports.outQueue d ++
          if d ∈ neighbors then [c.frame d] else []) ∧
      report.sent = neighbors.length ∧
      report.received + report.promoted = neighbors.length ∧
      report.early = Direction.all.countP (before.filled q.trial.log) ∧
      q.trial.stats = {
        sent := before.stats.sent + report.sent
        received := before.stats.received + report.received + report.early
        early := before.stats.early + report.early } := by
  intro neighbors before q report hfinished
  have hbefore : before.Sound S neighbors := (sound_outset h stats).after events
  obtain ⟨acts, hended⟩ := hbefore.ended_call c
  obtain ⟨r, hunderway, rfl, hunsent, hreceives⟩ := hended.finished report hfinished
  have horder : before.exchange.sendOrder = neighbors := hbefore.accounted.sendOrder
  have hhearing : before.Hearing c (before.log ++ acts) r q.incoming := hunderway.hearing
  have hsending : r.Sending before.exchange.sendOrder c.iteration c.outgoing acts 0 :=
    hunsent ▸ hunderway.sending
  have hnone : ∀ d, r.awaiting.get d = false :=
    r.awaiting.count_eq_zero_iff.1 (hhearing.receives.symm.trans hreceives)
  rw [horder] at hsending
  have hframes : acts.filter Act.sends = neighbors.map fun d => .sent d (c.frame d) := hsending.all
  have hlog : q.trial.log = before.log ++ acts := hended.goes.log
  rw [← hlog] at hhearing
  have hreads := hhearing.taken
  rw [horder, hreceives] at hreads
  refine ⟨fun d hd => ?_, fun d => ⟨(Tally.proper_read d _).nodup, hended.accounted.uses d⟩,
    fun d hd => ?_,
    ⟨acts, hlog, hframes⟩, fun d => ?_, hsending.sent.trans hsending.sends, by omega, hhearing.early,
    hunderway.stats⟩
  · obtain ⟨i, frame, edge, hframe, hdecode, hedge, hused, hfrom⟩ :=
      hhearing.heard d (horder ▸ hd) (hnone d)
    rw [hbefore.accounted.edgeLength] at hdecode
    refine ⟨i, frame, edge, ?_, hdecode, EdgeMessage.size_of_decode hdecode, hedge, hused, hfrom⟩
    rw [hended.goes.arrived hbefore.arrived,
      List.getElem?_append_left (List.getElem?_eq_some_iff.1 hframe).1]
    exact hframe
  · exact hhearing.others d (horder ▸ hd)
  · have hnodup : neighbors.Nodup := List.Pairwise.filter _ (by decide)
    rw [← Act.flatMap_sentOn_map hnodup c.frame d, ← hframes, Act.flatMap_sentOn_filter]
    exact hended.goes.outbound d

/-- A neighbor to the east puts its edge into the link before the cell asks for it. -/
theorem Trial.finished_call_east :
    let ports : Ports := ⟨⟨none, none, some (.ofCapacity 1), none⟩,
      ⟨none, none, some (.ofCapacity 1), none⟩⟩
    let x : Exchange := ⟨⟨0⟩, 1, [.east], ⟨false, false, true, false⟩, .const none, 0⟩
    let frame := EdgeMessage.encode ⟨.east, .even, #[⟨7⟩]⟩
    let c : Call := ⟨0, .const #[⟨1⟩], .const #[⟨0⟩], []⟩
    let q := ((outset x ports {}).after [.deed (.put .east frame)]).call c
    q.verdict = .finished ⟨1, 1, 0, 0⟩ ∧ q.trial.stats = ⟨1, 1, 0⟩ ∧
      ∃ i, (q.trial.tally .east).used = [i] := by
  intro ports x frame c q
  have hcreate : Exchange.create ⟨0⟩ 1 (ports.outbound.map Option.isSome)
      (ports.inbound.map Option.isSome) = .ok x := by decide
  have hverdict : q.verdict = .finished ⟨1, 1, 0, 0⟩ := by
    let start := x.start c.iteration c.outgoing c.incoming
    let s : Session := ⟨start.1, start.2.1, start.2.2.1,
      ((outset x ports {}).after [.deed (.put .east frame)]).ports, {}⟩
    let sent := s.afterSend .east ⟨1, [c.frame .east], true, true⟩
    let done := (sent.afterTake .east ⟨1, [], true, true⟩).afterApply .east #[⟨7⟩]
    have hsent : s.turn = .acted (.sent .east (c.frame .east)) sent := rfl
    have hdone : sent.turn = .acted (.applied .east frame) done := by decide +kernel
    have hover : done.turn = .finished := rfl
    change s.poll.verdict = _
    rw [Session.poll_of_acted hsent, Session.poll_of_acted hdone, Session.poll_of_finished hover]
    rfl
  obtain ⟨hheard, -, -, -, -, -, -, -, hstats⟩ :=
    finished_call hcreate {} [.deed (.put .east frame)] c _ hverdict
  obtain ⟨i, -, -, -, -, -, -, hused, -⟩ := hheard .east (by decide)
  exact ⟨hverdict, hstats, i, hused⟩

end DiffusionMesh

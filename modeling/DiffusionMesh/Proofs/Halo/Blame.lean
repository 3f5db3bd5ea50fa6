/-
# What can be wrong with a frame

A call takes frames one by one and goes on as long as there is nothing wrong with them, so only the
last one can be faulty. Whether it is depends on the acts of the call before it and on what was in
the slots when the call began (`Trial.Faults`):

| the last frame, from a link | the failure |
| --- | --- |
| holds no edge | malformed |
| is meant for another link | misrouted |
| has the parity of the call, after an edge from there has been put to use | second edge |
| has the other parity, while the slot is in use | too far ahead |

A call underway is `Blameless` as long as no frame was faulty. It begins so, and every turn that
acts and every deed of a neighbor leave it so. How a call ended is then a matter of one last turn
(`Trial.Concluded`).
-/

import DiffusionMesh.Proofs.Halo.Completion
import DiffusionMesh.Proofs.Halo.Course

namespace DiffusionMesh

/-- The last frame that some acts have taken, the link it came from, and the acts before it. -/
def LastTaken (acts past : List Act) (d : Direction) (frame : Frame) : Prop :=
  ∃ act later, acts = past ++ act :: later ∧ act.takenOn d = [frame] ∧
    ∀ a ∈ later, a.takes = false

/-- With one act more, its frame is the last one, if it has taken one. -/
theorem lastTaken_concat {acts past : List Act} {act : Act} {d : Direction} {frame : Frame} :
    LastTaken (acts ++ [act]) past d frame ↔
      past = acts ∧ act.takenOn d = [frame] ∨ act.takes = false ∧ LastTaken acts past d frame := by
  constructor
  · rintro ⟨a, later, hacts, htaken, hlater⟩
    rcases List.eq_nil_or_concat later with rfl | ⟨later, b, rfl⟩
    · obtain ⟨rfl, hact⟩ := List.append_inj' hacts rfl
      obtain rfl := List.singleton_inj.1 hact
      exact .inl ⟨rfl, htaken⟩
    · rw [List.concat_eq_append] at hacts hlater
      rw [← List.cons_append, ← List.append_assoc] at hacts
      obtain ⟨rfl, hact⟩ := List.append_inj' hacts rfl
      obtain rfl := List.singleton_inj.1 hact
      have hact := hlater _ (List.mem_append_right _ (List.mem_singleton_self _))
      exact .inr ⟨hact, a, later, rfl, htaken, fun x hx => hlater x (List.mem_append_left _ hx)⟩
  · rintro (⟨rfl, htaken⟩ | ⟨htakes, a, later, rfl, htaken, hlater⟩)
    · exact ⟨act, [], rfl, htaken, fun _ hx => absurd hx List.not_mem_nil⟩
    · refine ⟨a, later ++ [act], List.append_assoc .., htaken, fun x hx => ?_⟩
      rcases List.mem_append.1 hx with hx | hx
      · exact hlater x hx
      · rw [List.mem_singleton.1 hx]
        exact htakes

namespace Trial

/-- After some acts of a call the slot of a direction is in use: the edge in it before the call has
not been put to use, or an edge has been kept since. -/
def Occupied (t : Trial) (acts : List Act) (d : Direction) : Prop :=
  (t.exchange.lookahead.get d).isSome = true ∧ .promoted d ∉ acts ∨
    ∃ frame, .parked d frame ∈ acts

/-- What is wrong with a frame from a link, taken in a call after some acts. -/
inductive Faults (t : Trial) (c : Call) (past : List Act) (d : Direction) (frame : Frame) :
    Failure → Prop where
  | malformed {fault : FrameFault} :
      EdgeMessage.decode t.exchange.edgeLength frame = .error fault →
      Faults t c past d frame (.malformedFrame fault)
  | misrouted {message : EdgeMessage} :
      EdgeMessage.decode t.exchange.edgeLength frame = .ok message → message.direction ≠ d →
      Faults t c past d frame (.misrouted t.exchange.cell message.direction d)
  | secondEdge {edge : Edge} :
      EdgeMessage.decode t.exchange.edgeLength frame = .ok ⟨d, .ofIteration c.iteration, edge⟩ →
      (∃ a ∈ past, a.uses d = true) →
      Faults t c past d frame (.protocolViolation t.exchange.cell d .secondEdge)
  | tooFarAhead {p : Parity} {edge : Edge} :
      EdgeMessage.decode t.exchange.edgeLength frame = .ok ⟨d, p, edge⟩ →
      p ≠ .ofIteration c.iteration → t.Occupied past d →
      Faults t c past d frame (.protocolViolation t.exchange.cell d .tooFarAhead)

/-- A call underway that has had no frame to object to. -/
structure Blameless (t : Trial) (c : Call) (acts : List Act) (s : Session) : Prop where
  began : t.exchange.Accounted t.exchange.edgeLength t.exchange.sendOrder t.log
  underway : t.Underway c acts s
  cell : s.exchange.cell = t.exchange.cell
  slots : ∀ d, (s.exchange.lookahead.get d).isSome = true ↔ t.Occupied acts d
  links : ∀ d ∈ t.exchange.sendOrder, (s.ports.outbound.get d).isSome = true
  frames : ∀ past d frame, LastTaken acts past d frame → ∀ cause, ¬ t.Faults c past d frame cause

variable {t : Trial} {c : Call} {acts past : List Act} {act : Act} {d : Direction} {frame : Frame}
  {s next : Session} {rest : Link} {cause : Failure}

/-- An edge is awaited from the neighbors that no edge has been put to use from. -/
theorem Blameless.awaiting_iff (h : t.Blameless c acts s) (d : Direction) :
    s.round.awaiting.get d = true ↔ d ∈ t.exchange.sendOrder ∧ ∀ a ∈ acts, ¬ a.uses d = true := by
  have hcount : (Tally.read d (t.log ++ acts)).used.length =
      (t.tally d).used.length + acts.countP (Act.uses d) := by
    rw [h.underway.accounted.uses, tally, h.began.uses, List.countP_append]
  rw [← List.countP_eq_zero]
  constructor
  · intro hawaiting
    obtain ⟨hmem, hused⟩ := h.underway.hearing.awaits d hawaiting
    rw [hused] at hcount
    exact ⟨hmem, by omega⟩
  · rintro ⟨hmem, hnone⟩
    by_contra hheard
    obtain ⟨i, -, -, -, -, -, hused, -⟩ :=
      h.underway.hearing.heard d hmem (Bool.not_eq_true _ ▸ hheard)
    rw [hused, List.length_append, List.length_singleton] at hcount
    omega

/-- **A frame is rejected for what is wrong with it**, and only for that. -/
theorem Blameless.judge_iff (h : t.Blameless c acts s) (harrives : s.Arrives d frame rest) :
    (s.afterTake d rest).judge d frame = .rejected d frame cause (s.afterTake d rest) ↔
      t.Faults c acts d frame cause := by
  have hlength : (s.afterTake d rest).exchange.edgeLength = t.exchange.edgeLength :=
    h.underway.accounted.edgeLength
  have hcell : (s.afterTake d rest).exchange.cell = t.exchange.cell := h.cell
  have hparity : (s.afterTake d rest).round.parity = .ofIteration c.iteration :=
    congrArg Parity.ofIteration h.underway.sending.iteration
  have hmem : d ∈ t.exchange.sendOrder := h.underway.accounted.listening d harrives.listening
  have hawaiting : (s.afterTake d rest).round.awaiting.get d = true ↔
      ∀ a ∈ acts, ¬ a.uses d = true := (h.awaiting_iff d).trans (and_iff_right hmem)
  have hslot : ((s.afterTake d rest).exchange.lookahead.get d).isSome = true ↔ t.Occupied acts d :=
    h.slots d
  rw [Session.judge, hlength, hcell, hparity]
  constructor
  · intro hjudge
    split at hjudge
    · next fault hdecode =>
      cases hjudge
      exact .malformed hdecode
    · next message hdecode =>
      obtain ⟨e, p, edge⟩ := message
      split at hjudge
      · next hlink =>
        cases hjudge
        exact .misrouted hdecode hlink
      · next hlink =>
        obtain rfl : e = d := Decidable.not_not.1 hlink
        split at hjudge
        · next hsame =>
          obtain rfl : p = .ofIteration c.iteration := hsame
          split at hjudge
          · cases hjudge
          · next hheard =>
            cases hjudge
            rw [hawaiting] at hheard
            push Not at hheard
            exact .secondEdge hdecode hheard
        · next hother =>
          split at hjudge
          · next hkept =>
            cases hjudge
            exact .tooFarAhead hdecode hother (hslot.1 hkept)
          · cases hjudge
  · rintro (hdecode | ⟨hdecode, hlink⟩ | ⟨hdecode, a, ha, huses⟩ | ⟨hdecode, hother, hkept⟩)
    · rw [hdecode]
    · simp only [hdecode, if_pos hlink]
    · have hheard : ¬ (s.afterTake d rest).round.awaiting.get d = true :=
        fun hd => hawaiting.1 hd a ha huses
      simp only [hdecode, ne_eq, not_true_eq_false, if_false, if_true, if_neg hheard]
    · simp only [hdecode, ne_eq, not_true_eq_false, if_false, if_neg hother, if_pos (hslot.2 hkept)]

/-- Only what is kept or promoted changes what the slots hold. -/
theorem occupied_concat (hparks : act.parks = false) (hpromotes : act.promotes = false) :
    t.Occupied (acts ++ [act]) d ↔ t.Occupied acts d := by
  cases act with
  | promoted => cases hpromotes
  | parked => cases hparks
  | _ => simp [Occupied]

/-- The acts tell which slots are in use, after each step. -/
theorem slots_step (h : ∀ d, (s.exchange.lookahead.get d).isSome = true ↔ t.Occupied acts d)
    (hstep : s.Step act next) (d : Direction) :
    (next.exchange.lookahead.get d).isSome = true ↔ t.Occupied (acts ++ [act]) d := by
  cases hstep with
  | sent | applied | rejected | hungUp => exact (h d).trans (occupied_concat rfl rfl).symm
  | @parked e frame rest message =>
    change ((s.exchange.lookahead.set e (some message)).get d).isSome = true ↔ _
    by_cases hed : d = e
    · subst hed
      rw [Compass.get_set_self]
      exact iff_of_true rfl (.inr ⟨frame, List.mem_append_right _ (List.mem_singleton_self _)⟩)
    · rw [Compass.get_set_of_ne _ hed, h]
      simp [Occupied, hed]

/-- **Every turn that acts leaves a call blameless.** -/
theorem Blameless.step (h : t.Blameless c acts s) (hturn : s.turn = .acted act next) :
    t.Blameless c (acts ++ [act]) next := by
  have hstep : s.Step act next := .of_turn (by rw [hturn]; rfl)
  refine ⟨h.began, h.underway.step hstep (Session.rejects_of_acted hturn),
    hstep.ledger.cell.trans h.cell, slots_step h.slots hstep,
    fun d hd => (hstep.ledger.outbound d).trans (h.links d hd), ?_⟩
  intro past d frame hlast cause hfault
  rcases lastTaken_concat.1 hlast with ⟨rfl, htaken⟩ | ⟨-, hbefore⟩
  · -- the frame of this turn has just been judged, and the round goes on
    obtain ⟨rest, harrives, hacted⟩ := Session.taken_of_turn hturn htaken
    cases hacted.symm.trans ((h.judge_iff harrives).2 hfault)
  · exact h.frames past d frame hbefore cause hfault

/-- A call begins blameless: it has put to use edges from the slots, and taken no frame. -/
theorem blameless_start
    (ht : t.exchange.Accounted t.exchange.edgeLength t.exchange.sendOrder t.log)
    (hneighbors : t.exchange.neighborCount = Direction.all.countP t.exchange.hasNeighbor)
    (hlinks : ∀ d ∈ t.exchange.sendOrder, (t.ports.outbound.get d).isSome = true) (c : Call) :
    let start := t.exchange.start c.iteration c.outgoing c.incoming
    t.Blameless c start.2.2.2 ⟨start.1, start.2.1, start.2.2.1, t.ports, t.stats⟩ := by
  intro start
  have hpromotes := t.exchange.promotes_start c.iteration c.outgoing c.incoming
  refine ⟨ht, underway_start ht hneighbors c t.ports, rfl, fun d => ?_, hlinks, ?_⟩
  · have hpromoted : .promoted d ∈ start.2.2.2 ↔
        (t.exchange.kept (.ofIteration c.iteration) d).isSome = true := by
      rw [← t.exchange.mem_kept]
      exact List.mem_map_of_injective fun _ _ h => Act.promoted.inj h
    have hparked : ¬ ∃ frame, .parked d frame ∈ start.2.2.2 := by
      rintro ⟨frame, hmem⟩
      cases hpromotes _ hmem
    rw [Occupied, or_iff_left hparked, hpromoted,
      show start.1.lookahead.get d = _ from t.exchange.lookahead_start _ _ _ d]
    split
    · next hkept => simp [hkept]
    · next hkept => simp [hkept]
  · rintro past d frame ⟨act, later, hacts, htaken, -⟩
    have hmem : act ∈ start.2.2.2 := hacts ▸ List.mem_append_right _ List.mem_cons_self
    have hact := hpromotes act hmem
    cases act with
    | promoted => cases htaken
    | _ => cases hact

/-- A deed takes no link away. -/
theorem isSome_outbound_deed (t : Trial) (a : Deed) (d : Direction) :
    ((t.deed a).ports.outbound.get d).isSome = (t.ports.outbound.get d).isSome := by
  have hdepart : ∀ {e : Direction} {l : Link} link frames, t.ports.outbound.get e = some l →
      ((t.depart e link frames).ports.outbound.get d).isSome =
        (t.ports.outbound.get d).isSome := by
    intro e l link frames hl
    simp only [depart, Compass.get_set]
    split
    · next he => rw [he, hl, Option.isSome_some, Option.isSome_some]
    · rfl
  cases a with
  | put | holdSender =>
    rw [deed]
    split <;> rfl
  | take e =>
    rw [deed]
    split
    · next frame link h =>
      obtain ⟨l, hl, -⟩ := Option.map_eq_some_iff.1 h
      exact hdepart _ _ hl
    · rfl
  | holdReceiver e held =>
    rw [deed]
    split
    · next l hl => split <;> exact hdepart _ _ hl
    · rfl

theorem isSome_outbound_deeds (t : Trial) (deeds : List Deed) (d : Direction) :
    ((deeds.foldl deed t).ports.outbound.get d).isSome = (t.ports.outbound.get d).isSome := by
  induction deeds generalizing t with
  | nil => rfl
  | cons a rest ih => exact (ih (t.deed a)).trans (t.isSome_outbound_deed a d)

/-- Deeds of the neighbors leave a call blameless. -/
theorem Blameless.deeds {u : Trial} {r : Round} {incoming : Compass Edge}
    (h : t.Blameless c acts (u.session r incoming)) (deeds : List Deed) :
    t.Blameless c acts ((deeds.foldl deed u).session r incoming) := by
  obtain ⟨-, hexchange, hstats⟩ := u.deeds_keep deeds
  refine ⟨h.began, ⟨?_, h.underway.hearing, ?_, hstats.trans h.underway.stats⟩, ?_, ?_,
    fun d hd => ?_, h.frames⟩
  · change (deeds.foldl deed u).exchange.Accounted _ _ _
    rw [hexchange]
    exact h.underway.accounted
  · change r.Sending _ _ _ _ (deeds.foldl deed u).exchange.unsent
    rw [hexchange]
    exact h.underway.sending
  · change (deeds.foldl deed u).exchange.cell = _
    rw [hexchange]
    exact h.cell
  · change ∀ d, ((deeds.foldl deed u).exchange.lookahead.get d).isSome = true ↔ _
    rw [hexchange]
    exact h.slots
  · exact (u.isSome_outbound_deeds deeds d).trans (h.links d hd)

/-- How a call ended: its last poll, with all acts of the call, came from a blameless session. -/
structure Concluded (t : Trial) (c : Call) (p : Poll) (q : Returned) : Prop where
  last : ∃ past s, t.Blameless c past s ∧ s.EndsIn past p
  log : q.trial.log = t.log ++ p.acts
  exchange : q.trial.exchange = p.session.exchange
  ports : q.trial.ports = p.session.ports
  verdict : q.verdict = p.verdict

/-- **Every way a round can go on** concludes the call. -/
theorem Blameless.run {u : Trial} {r : Round} {incoming : Compass Edge}
    (h : t.Blameless c acts (u.session r incoming)) (hlog : u.log = t.log ++ acts)
    (visits : List (List Deed)) : ∃ p, t.Concluded c p (u.run r incoming visits) := by
  obtain ⟨past, s, p, hcourse, hends, htells⟩ := exists_course_run
    (fun hs hturn => hs.step hturn) (fun deeds hs => hs.deeds deeds) h hlog visits
  exact ⟨p, ⟨past, s, hcourse.last, hends⟩, htells.log, htells.exchange, htells.ports,
    htells.verdict⟩

end Trial
end DiffusionMesh

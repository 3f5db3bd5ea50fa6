/-
# How long a call goes on

Whatever arrives and whatever is closed, there are four things that a call does about a neighbor, and
it does each of them at most once:

| chore | is due as long as |
| --- | --- |
| send its edge | the place in the order of sending is to come |
| put its edge of this iteration to use | the edge is awaited |
| keep its edge of the next iteration | the slot is empty |
| note that its link is closed | the link is listened to |

A turn that acts does a chore that is due. That chore is not due again, and no other becomes due
(`Session.Step.due`). So with `n` neighbors at most `4 n` turns act, and one more finishes, fails or
waits. All along the numbers of edges to send and to come are exact, and there is always an edge to
send or a link to listen to (`Session.InStep`). Main statement: `Trial.call_bounded`.
-/

import DiffusionMesh.Proofs.Halo.Verdicts
import Mathlib.Data.List.ProdSigma

namespace DiffusionMesh

/-- What a call does about a neighbor. -/
inductive Chore where
  | send
  | apply
  | park
  | hangUp
deriving DecidableEq

/-- The chore that an act does, and the neighbor it is about. -/
def Act.chore? : Act → Option (Chore × Direction)
  | .sent d _ => some (.send, d)
  | .applied d _ => some (.apply, d)
  | .parked d _ => some (.park, d)
  | .hungUp d => some (.hangUp, d)
  | .promoted _ | .rejected _ _ => none

/-- The chores that acts have done, in order. -/
def choresOf (acts : List Act) : List (Chore × Direction) := acts.filterMap Act.chore?

theorem choresOf_concat (acts : List Act) (act : Act) :
    choresOf (acts ++ [act]) = choresOf acts ++ act.chore?.toList := by
  rw [choresOf, List.filterMap_append]
  cases h : act.chore? <;> simp [choresOf, h]

/-- **Of some kinds of chores, each neighbor gives rise to one each at most.** -/
theorem countP_chores_le {chores : List (Chore × Direction)} {order : List Direction}
    (hnodup : chores.Nodup) (horder : ∀ chore ∈ chores, chore.2 ∈ order) (kinds : List Chore) :
    chores.countP (fun chore => kinds.contains chore.1) ≤ kinds.length * order.length := by
  have hsub : chores.filter (fun chore => kinds.contains chore.1) ⊆ kinds ×ˢ order := by
    intro chore hmem
    obtain ⟨hmem, hkind⟩ := List.mem_filter.1 hmem
    exact List.mem_product.2 ⟨List.contains_iff_mem.1 hkind, horder chore hmem⟩
  rw [List.countP_eq_length_filter, ← List.length_product]
  exact (List.subperm_of_subset (hnodup.filter _) hsub).length_le

/-- Acts are counted by the chores they do. -/
theorem countP_choresOf (acts : List Act) {p : Chore × Direction → Bool} {does : Act → Bool}
    (h : ∀ a, does a = a.chore?.any p) : acts.countP does = (choresOf acts).countP p := by
  rw [choresOf, List.countP_filterMap]
  refine List.countP_congr fun a _ => ?_
  rw [h]
  cases a.chore? <;> rfl

namespace Session

/-- A chore that is still to be done, if there is occasion. -/
def Due (s : Session) : Chore × Direction → Prop
  | (.send, d) => d ∈ s.exchange.sendOrder.drop s.round.nextSend
  | (.apply, d) => s.round.awaiting.get d = true
  | (.park, d) => s.exchange.lookahead.get d = none
  | (.hangUp, d) => s.exchange.listening.get d = true

variable {s next : Session} {act : Act} {acts : List Act} {chore : Chore × Direction}

/-- **A chore that is done was due and is not due again, and no other becomes due.** -/
theorem Step.due (h : s.Step act next) (hnodup : s.exchange.sendOrder.Nodup) :
    (∀ chore, act.chore? = some chore → s.Due chore ∧ ¬ next.Due chore) ∧
      ∀ chore, next.Due chore → s.Due chore := by
  have hset : ∀ {c : Compass Bool} {d e : Direction}, (c.set d false).get e = true →
      c.get e = true := by
    intro c d e he
    rw [Compass.get_set] at he
    split at he
    · cases he
    · exact he
  have hcleared : ∀ {c : Compass Bool} {d : Direction}, ¬ (c.set d false).get d = true := by
    intro c d he
    rw [Compass.get_set_self] at he
    cases he
  cases h with
  | @sent d link _ htarget _ =>
    obtain ⟨hlt, hd⟩ := List.getElem?_eq_some_iff.1 htarget
    have hdrop : s.exchange.sendOrder.drop s.round.nextSend =
        d :: s.exchange.sendOrder.drop (s.round.nextSend + 1) := by
      rw [List.drop_eq_getElem_cons hlt, hd]
    have hrest := hnodup.sublist (List.drop_sublist s.round.nextSend _)
    rw [hdrop, List.nodup_cons] at hrest
    refine ⟨?_, ?_⟩
    · rintro _ ⟨⟩
      refine ⟨?_, hrest.1⟩
      change d ∈ s.exchange.sendOrder.drop s.round.nextSend
      rw [hdrop]
      exact List.mem_cons_self
    · rintro ⟨_ | _ | _ | _, e⟩ he
      · change e ∈ s.exchange.sendOrder.drop s.round.nextSend
        rw [hdrop]
        exact List.mem_cons_of_mem _ he
      all_goals exact he
  | applied _ _ _ hawaiting =>
    refine ⟨?_, ?_⟩
    · rintro _ ⟨⟩
      exact ⟨hawaiting, hcleared⟩
    · rintro ⟨_ | _ | _ | _, e⟩ he
      · exact he
      · exact hset he
      all_goals exact he
  | @parked d frame rest message _ _ _ hfree =>
    refine ⟨?_, ?_⟩
    · rintro _ ⟨⟩
      refine ⟨hfree, fun hnone => ?_⟩
      change (s.exchange.lookahead.set d (some message)).get d = none at hnone
      rw [Compass.get_set_self] at hnone
      cases hnone
    · rintro ⟨_ | _ | _ | _, e⟩ he
      · exact he
      · exact he
      · change (s.exchange.lookahead.set d (some message)).get e = none at he
        rw [Compass.get_set] at he
        split at he
        · cases he
        · exact he
      · exact he
  | rejected => exact ⟨nofun, fun ⟨chore, _⟩ he => by cases chore <;> exact he⟩
  | hungUp hopen =>
    refine ⟨?_, ?_⟩
    · rintro _ ⟨⟩
      exact ⟨hopen, hcleared⟩
    · rintro ⟨_ | _ | _ | _, e⟩ he
      · exact he
      · exact he
      · exact he
      · exact hset he

/-- A turn that acts does a chore. -/
theorem isSome_chore?_of_acted (h : s.turn = .acted act next) : act.chore?.isSome = true := by
  have hstep : s.Step act next := .of_turn (by rw [h]; rfl)
  have hrejects := rejects_of_acted h
  cases hstep with
  | rejected => cases hrejects
  | sent | applied | parked | hungUp => rfl

/-- Chores are about neighbors. -/
theorem Step.mem_sendOrder {d : Direction} {kind : Chore} (h : s.Step act next)
    (hlistening : ∀ d, s.exchange.listening.get d = true → d ∈ s.exchange.sendOrder)
    (hact : act.chore? = some (kind, d)) : d ∈ s.exchange.sendOrder := by
  cases h with
  | sent _ htarget _ =>
    cases hact
    exact List.mem_of_getElem? htarget
  | applied harrives | parked harrives =>
    cases hact
    exact hlistening _ harrives.listening
  | rejected => cases hact
  | hungUp hopen =>
    cases hact
    exact hlistening _ hopen

/-- No chore has been done twice, those done are not due any more, and all are about neighbors. -/
structure Orderly (s : Session) (acts : List Act) : Prop where
  nodup : (choresOf acts).Nodup
  done : ∀ chore ∈ choresOf acts, ¬ s.Due chore
  neighbors : ∀ chore ∈ choresOf acts, chore.2 ∈ s.exchange.sendOrder

/-- **Every step is orderly.** -/
theorem Orderly.step (h : s.Orderly acts) (hstep : s.Step act next)
    (hnodup : s.exchange.sendOrder.Nodup)
    (hlistening : ∀ d, s.exchange.listening.get d = true → d ∈ s.exchange.sendOrder) :
    next.Orderly (acts ++ [act]) := by
  obtain ⟨hact, hstill⟩ := hstep.due hnodup
  have horder : next.exchange.sendOrder = s.exchange.sendOrder := hstep.ledger.sendOrder
  have hdone : ∀ chore ∈ choresOf acts, ¬ next.Due chore :=
    fun chore hmem hdue => h.done chore hmem (hstill chore hdue)
  constructor <;> rw [choresOf_concat]
  · cases hchore : act.chore? with
    | none => simpa using h.nodup
    | some chore =>
      have hnew : chore ∉ choresOf acts := fun hmem => h.done chore hmem (hact chore hchore).1
      exact List.concat_eq_append ▸ h.nodup.concat hnew
  · intro chore hmem
    rcases List.mem_append.1 hmem with hmem | hmem
    · exact hdone chore hmem
    · exact (hact chore (Option.mem_toList.1 hmem)).2
  · rintro ⟨kind, d⟩ hmem
    rw [horder]
    rcases List.mem_append.1 hmem with hmem | hmem
    · exact h.neighbors _ hmem
    · exact hstep.mem_sendOrder hlistening (Option.mem_toList.1 hmem)

/-! ### Numbers that a call keeps -/

/-- A session whose numbers are exact, among `n` neighbors: the number of edges to send is what the
place in the order leaves, that of edges to come is the number of directions awaited, and a turn that
lowers one of them lowers it by one. There is a direction for each edge to send, and as long as
something is left to do there is an edge to send or a link to listen to: it is not stuck. -/
structure InStep (s : Session) (n : Nat) : Prop where
  place : s.round.nextSend ≤ n
  unsent : s.exchange.unsent = n - s.round.nextSend
  receives : s.round.receives = s.round.awaiting.count
  target : s.exchange.unsent ≠ 0 → ∃ d, s.target? = some d
  able : ¬ (s.exchange.unsent = 0 ∧ s.round.receives = 0) → s.severedLink = none →
    s.exchange.unsent ≠ 0 ∨ s.canReceive = true
  unstuck : s.turn ≠ .stuck
  sends : ∀ d frame next, s.turn = .acted (.sent d frame) next →
    next.exchange.unsent + 1 = s.exchange.unsent
  applies : ∀ d frame next, s.turn = .acted (.applied d frame) next →
    next.round.receives + 1 = s.round.receives

/-- An edge that is awaited over an open link leaves something to listen to. -/
theorem canReceive_of_awaiting (h : s.severedLink = none) (hcount : s.round.awaiting.count ≠ 0) :
    s.canReceive = true := by
  have hawaiting : ∃ d, s.round.awaiting.get d = true := by
    by_contra hnone
    push Not at hnone
    exact hcount (s.round.awaiting.count_eq_zero_iff.2 fun d => Bool.not_eq_true _ ▸ hnone d)
  obtain ⟨d, hd⟩ := hawaiting
  exact List.any_eq_true.2 ⟨d, Direction.mem_all d, s.heard_of_severedLink_eq_none h d hd⟩

/-- Numbers that agree with the order and with the directions awaited are exact. -/
theorem inStep_of {order : List Direction} (horder : s.exchange.sendOrder = order)
    (hsends : s.round.nextSend + s.exchange.unsent = order.length)
    (hreceives : s.round.receives = s.round.awaiting.count) (hunstuck : s.turn ≠ .stuck) :
    s.InStep order.length where
  place := by omega
  unsent := by omega
  receives := hreceives
  target hunsent := by
    have hlt : s.round.nextSend < s.exchange.sendOrder.length := by
      rw [horder]
      omega
    exact ⟨_, List.getElem?_eq_getElem hlt⟩
  able hleft hopen := by
    by_cases hunsent : s.exchange.unsent = 0
    · refine .inr (canReceive_of_awaiting hopen ?_)
      rw [← hreceives]
      exact fun hnone => hleft ⟨hunsent, hnone⟩
    · exact .inl hunsent
  unstuck := hunstuck
  sends d frame next hturn := by
    have hstep : s.Step (.sent d frame) next := .of_turn (by rw [hturn]; rfl)
    cases hstep with
    | sent hunsent => exact Nat.sub_add_cancel (Nat.pos_of_ne_zero hunsent)
  applies d frame next hturn := by
    have hstep : s.Step (.applied d frame) next := .of_turn (by rw [hturn]; rfl)
    cases hstep with
    | applied _ _ _ hawaiting =>
      have hcount := s.round.awaiting.count_set_false hawaiting
      have hpos : 1 ≤ s.round.receives := by omega
      exact Nat.sub_add_cancel hpos

/-- A poll has the acts before its last turn, and with a faulty frame one more, which is no chore. -/
theorem EndsIn.choresOf {past : List Act} {p : Poll} (h : s.EndsIn past p) :
    DiffusionMesh.choresOf p.acts = DiffusionMesh.choresOf past := by
  cases h with
  | rejected => rw [choresOf_concat, Act.chore?, Option.toList_none, List.append_nil]
  | severed | finished | idle => rfl

/-- A poll that has found a frame faulty fails. -/
theorem EndsIn.failed {past : List Act} {p : Poll} (h : s.EndsIn past p)
    (hpast : ∀ a ∈ past, a.rejects = false) {a : Act} (ha : a ∈ p.acts)
    (hrejects : a.rejects = true) :
    ∃ cause, p.verdict = .failed cause := by
  cases h with
  | rejected => exact ⟨_, rfl⟩
  | severed | finished | idle => cases (hpast a ha).symm.trans hrejects

/-- The last turn of a poll that waits has found nothing to do. -/
theorem EndsIn.idle_of_waiting {past : List Act} {p : Poll} (h : s.EndsIn past p)
    (hwaiting : p.verdict = .waiting) : s.turn = .waiting ∨ s.turn = .stuck := by
  cases h with
  | idle hturn => exact hturn
  | rejected | severed | finished => cases hwaiting

end Session

/-! ### A whole call -/

namespace Trial

variable {t : Trial} {c : Call} {acts : List Act} {act : Act} {s next : Session}

theorem Blameless.inStep (h : t.Blameless c acts s) : s.InStep t.exchange.sendOrder.length :=
  Session.inStep_of h.underway.accounted.sendOrder h.underway.sending.sends
    h.underway.hearing.receives h.not_stuck

/-- A call underway in which every act since the start was a chore, and none was done twice. -/
structure Diligent (t : Trial) (c : Call) (started : Nat) (acts : List Act) (s : Session) : Prop where
  blameless : t.Blameless c acts s
  orderly : s.Orderly acts
  length : acts.length = started + (choresOf acts).length
  rejects : ∀ a ∈ acts, a.rejects = false

variable {started : Nat}

/-- **Every turn that acts does a chore**, one that has not been done. -/
theorem Diligent.step (h : t.Diligent c started acts s) (hnodup : t.exchange.sendOrder.Nodup)
    (hturn : s.turn = .acted act next) : t.Diligent c started (acts ++ [act]) next := by
  have horder := h.blameless.underway.accounted.sendOrder
  have hstep : s.Step act next := .of_turn (by rw [hturn]; rfl)
  obtain ⟨chore, hchore⟩ := Option.isSome_iff_exists.1 (Session.isSome_chore?_of_acted hturn)
  refine ⟨h.blameless.step hturn, h.orderly.step hstep (horder ▸ hnodup) fun d hd => ?_, ?_, ?_⟩
  · rw [horder]
    exact h.blameless.underway.accounted.listening d hd
  · rw [choresOf_concat, hchore, List.length_append, List.length_append, h.length]
    rfl
  · intro a ha
    rcases List.mem_append.1 ha with ha | ha
    · exact h.rejects a ha
    · rw [List.mem_singleton.1 ha]
      exact Session.rejects_of_acted hturn

/-- A deed of a neighbor makes no chore due. -/
theorem Diligent.deeds {u : Trial} {r : Round} {incoming : Compass Edge}
    (h : t.Diligent c started acts (u.session r incoming)) (deeds : List Deed) :
    t.Diligent c started acts ((deeds.foldl deed u).session r incoming) := by
  have hexchange := (u.deeds_keep deeds).2.1
  refine ⟨h.blameless.deeds deeds, ⟨h.orderly.nodup, fun chore hmem hdue => ?_, ?_⟩, h.length,
    h.rejects⟩
  · refine h.orderly.done chore hmem ?_
    obtain ⟨_ | _ | _ | _, d⟩ := chore <;>
      simpa only [Session.Due, session, hexchange] using hdue
  · simpa only [session, hexchange] using h.orderly.neighbors

/-- A call begins with no chore done. -/
theorem diligent_start
    (hblameless : let start := t.exchange.start c.iteration c.outgoing c.incoming
      t.Blameless c start.2.2.2 ⟨start.1, start.2.1, start.2.2.1, t.ports, t.stats⟩) :
    let start := t.exchange.start c.iteration c.outgoing c.incoming
    t.Diligent c start.2.2.2.length start.2.2.2
      ⟨start.1, start.2.1, start.2.2.1, t.ports, t.stats⟩ := by
  intro start
  have hacts : ∀ a ∈ start.2.2.2, a.chore? = none ∧ a.rejects = false := by
    intro a ha
    obtain ⟨d, -, rfl⟩ := List.mem_map.1 ha
    exact ⟨rfl, rfl⟩
  have hnone : choresOf start.2.2.2 = [] :=
    List.filterMap_eq_nil_iff.2 fun a ha => (hacts a ha).1
  refine ⟨hblameless, ⟨?_, ?_, ?_⟩, ?_, fun a ha => (hacts a ha).2⟩
  · rw [hnone]
    exact List.nodup_nil
  · rw [hnone]
    exact fun _ hmem => absurd hmem List.not_mem_nil
  · rw [hnone]
    exact fun _ hmem => absurd hmem List.not_mem_nil
  · rw [hnone]
    rfl

/-- How a call went: its acts, from those at its start on, and its turns. -/
structure Bounded (t : Trial) (c : Call) (acts : List Act) (q : Returned) : Prop where
  log : q.trial.log = t.log ++ acts
  nodup : (choresOf acts).Nodup
  neighbors : ∀ chore ∈ choresOf acts, chore.2 ∈ t.exchange.sendOrder
  rejects : ∀ a ∈ acts, a.rejects = true → ∃ cause, q.verdict = .failed cause
  turns : (t.turns c).length = (choresOf acts).length + 1
  inStep : ∀ s ∈ t.turns c, s.InStep t.exchange.sendOrder.length
  waits : q.verdict = .waiting → ∃ s, (t.turns c).getLast? = some s ∧
    q.trial.exchange = s.exchange ∧ q.trial.ports = s.ports ∧ s.Blocked ∧ s.Silent

variable {cell : CellId} {S : Nat} {b : Direction → Bool}

/-- **Every turn of a call but the last does a chore**, whatever the call comes to. -/
theorem Ready.bounded (h : t.Ready cell S (Direction.all.filter b)) (c : Call) :
    ∃ acts, t.Bounded c acts (t.call c) := by
  have horder := h.sound.accounted.sendOrder
  have hnodup : t.exchange.sendOrder.Nodup := horder ▸ List.Pairwise.filter _ (by decide)
  have hstart := diligent_start (blameless_start h.accounted (t.exchange.neighborCount_eq horder)
    (fun d hd => h.links d (horder ▸ hd)) c)
  obtain ⟨acts, last, p, hcourse, hends, htells⟩ := exists_course_run
    (fun hs hturn => hs.step hnodup hturn) (fun deeds hs => hs.deeds deeds)
    (t := { t with
      exchange := (t.exchange.start c.iteration c.outgoing c.incoming).1
      log := t.log ++ (t.exchange.start c.iteration c.outgoing c.incoming).2.2.2 })
    hstart rfl c.visits
  have hlast := hcourse.last
  have hsame := hlast.blameless.underway.accounted.sendOrder
  have hlength : acts.length + 1 =
      (t.exchange.start c.iteration c.outgoing c.incoming).2.2.2.length + (t.turns c).length :=
    hcourse.length
  refine ⟨p.acts, htells.log, ?_, ?_, fun a ha hrejects => ?_, ?_, fun s hs => ?_, fun hwaits => ?_⟩
  · rw [hends.choresOf]
    exact hlast.orderly.nodup
  · rw [hends.choresOf, ← hsame]
    exact hlast.orderly.neighbors
  · obtain ⟨cause, hcause⟩ := hends.failed hlast.rejects ha hrejects
    exact ⟨cause, htells.verdict.trans hcause⟩
  · rw [hlast.length] at hlength
    rw [hends.choresOf]
    omega
  · obtain ⟨_, hs⟩ := hcourse.all s hs
    exact hs.blameless.inStep
  · have hverdict := htells.verdict.symm.trans hwaits
    have hidle := hends.idle_of_waiting hverdict
    obtain rfl := hends.of_waiting hverdict
    have hturn := hidle.resolve_right hlast.blameless.not_stuck
    exact ⟨last, hcourse.getLast, htells.exchange, htells.ports, (Session.waiting_of_turn hturn).2⟩

end Trial

/-- **A call comes to an end**, whatever the neighbors do and have done, and whatever calls there have
been. With `n` neighbors it does each of the four chores at most once about each of them: it sends at
most `n` frames, takes at most `2 n` with which it goes on, and notes each link closed at most once.
Each of its turns but the last does a chore, so it takes at most `4 n + 1` of them, over all its
polls, until it finishes, fails or waits; it waits only if the next link is full or all edges are
sent, and if every link listened to is empty and still held. At each turn its numbers are exact. -/
theorem Trial.call_bounded {cell : CellId} {S : Nat} {x : Exchange} {ports : Ports}
    (h : Exchange.create cell S (ports.outbound.map Option.isSome)
      (ports.inbound.map Option.isSome) = .ok x) (stats : Stats) (events : List Event) (c : Call) :
    let neighbors := ports.outbound.directions Option.isSome
    let n := neighbors.length
    let before := (outset x ports stats).after events
    let round := (before.exchange.start c.iteration c.outgoing c.incoming).2.1
    let q := before.call c
    (∃ acts, q.trial.log = before.log ++ acts ∧
      (∀ chore, (choresOf acts).count chore ≤ if chore.2 ∈ neighbors then 1 else 0) ∧
      acts.countP Act.sends ≤ n ∧
      acts.countP (fun a => a.takes && !a.rejects) ≤ 2 * n ∧
      (∀ a ∈ acts, a.rejects = true → ∃ cause, q.verdict = .failed cause) ∧
      (before.turns c).length = (choresOf acts).length + 1) ∧
    (before.turns c).length ≤ 4 * n + 1 ∧
    round.report.promoted + round.receives = n ∧
    (∀ s ∈ before.turns c, s.InStep n) ∧
    (q.verdict = .waiting → ∃ s, (before.turns c).getLast? = some s ∧
      q.trial.exchange = s.exchange ∧ q.trial.ports = s.ports ∧ s.Blocked ∧ s.Silent) := by
  intro neighbors n before round q
  have hready : before.Ready cell S neighbors := (ready_outset h stats).after events
  have horder : before.exchange.sendOrder = neighbors := hready.sound.accounted.sendOrder
  have hn : before.exchange.sendOrder.length = n := congrArg List.length horder
  obtain ⟨acts, hacts⟩ := hready.bounded c
  have hneighbors := horder ▸ hacts.neighbors
  have hcount := countP_chores_le hacts.nodup hneighbors
  have hsends : acts.countP Act.sends = (choresOf acts).countP _ :=
    countP_choresOf acts (p := fun chore => [Chore.send].contains chore.1) fun a => by
      cases a <;> rfl
  have htakes : acts.countP (fun a => a.takes && !a.rejects) = (choresOf acts).countP _ :=
    countP_choresOf acts (p := fun chore => [Chore.apply, .park].contains chore.1) fun a => by
      cases a <;> rfl
  have hall : (choresOf acts).countP
      (fun chore => [Chore.send, .apply, .park, .hangUp].contains chore.1) =
        (choresOf acts).length :=
    List.countP_eq_length.2 fun chore _ => by cases chore.1 <;> rfl
  have hsends_le := hcount [.send]
  have htakes_le := hcount [.apply, .park]
  have hall_le := hcount [.send, .apply, .park, .hangUp]
  simp only [List.length_cons, List.length_nil] at hsends_le htakes_le hall_le
  have hturns := hacts.turns
  have hunderway := underway_start hready.accounted (before.exchange.neighborCount_eq horder) c
    before.ports
  refine ⟨⟨acts, hacts.log, fun chore => ?_, by omega, by omega, hacts.rejects, hturns⟩, by omega,
    hunderway.hearing.taken.trans hn, hn ▸ hacts.inStep, hacts.waits⟩
  split
  · exact List.nodup_iff_count_le_one.1 hacts.nodup chore
  · next hnot => exact (List.count_eq_zero.2 fun hmem => hnot (hneighbors chore hmem)).le

/-- A neighbor to the east has sent two edges and hung up before the call begins, and the link toward
it is full. All four chores are done, and the call takes one turn more. -/
theorem Trial.call_bounded_east :
    let even := EdgeMessage.encode ⟨.east, .even, #[⟨7⟩]⟩
    let odd := EdgeMessage.encode ⟨.east, .odd, #[⟨8⟩]⟩
    let ports : Ports := ⟨⟨none, none, some ⟨1, [even], true, true⟩, none⟩,
      ⟨none, none, some ⟨2, [even, odd], false, true⟩, none⟩⟩
    let x : Exchange := ⟨⟨0⟩, 1, [.east], ⟨false, false, true, false⟩, .const none, 0⟩
    let c : Call := ⟨0, .const #[⟨1⟩], .const #[⟨0⟩], [[.take .east]]⟩
    let turns := (outset x ports {}).turns c
    turns.length = 5 ∧
      turns.length ≤ 4 * (ports.outbound.directions Option.isSome).length + 1 := by
  intro even odd ports x c turns
  have hcreate : Exchange.create ⟨0⟩ 1 (ports.outbound.map Option.isSome)
      (ports.inbound.map Option.isSome) = .ok x := by decide
  refine ⟨?_, (call_bounded hcreate {} [] c).2.1⟩
  -- the turns up to the wait
  let start := x.start c.iteration c.outgoing c.incoming
  let s : Session := ⟨start.1, start.2.1, start.2.2.1, ports, {}⟩
  let applied := (s.afterTake .east ⟨2, [odd], false, true⟩).afterApply .east #[⟨7⟩]
  let parked := (applied.afterTake .east ⟨2, [], false, true⟩).afterPark .east ⟨.east, .odd, #[⟨8⟩]⟩
  let alone := parked.afterHangUp .east
  have happlied : s.turn = .acted (.applied .east even) applied := by decide +kernel
  have hparked : applied.turn = .acted (.parked .east odd) parked := by decide +kernel
  have halone : parked.turn = .acted (.hungUp .east) alone := by decide +kernel
  have hwaits : alone.turn = .waiting := by decide +kernel
  have hpoll : s.poll =
      ⟨[.applied .east even, .parked .east odd, .hungUp .east], alone, .waiting⟩ := by
    rw [Session.poll_of_acted happlied, Session.poll_of_acted hparked,
      Session.poll_of_acted halone, Session.poll_of_waiting hwaits]
  have hfirst : s.turns = [s, applied, parked, alone] := by
    rw [Session.turns_of_acted happlied, Session.turns_of_acted hparked,
      Session.turns_of_acted halone, Session.turns_of_last (by simp [hwaits])]
  -- the turns once the link has room
  let resumed : Session := { alone with
    ports := { alone.ports with
      outbound := alone.ports.outbound.set .east (some ⟨1, [], true, true⟩) } }
  let sent := resumed.afterSend .east ⟨1, [c.frame .east], true, true⟩
  have hsent : resumed.turn = .acted (.sent .east (c.frame .east)) sent := by decide +kernel
  have hover : sent.turn = .finished := by decide +kernel
  have hresumed : resumed.turns = [resumed, sent] := by
    rw [Session.turns_of_acted hsent, Session.turns_of_last (by simp [hover])]
  have hcall : turns = s.turns.dropLast ++ resumed.turns :=
    turnsFrom_of_waiting (t := outset start.1 ports {}) hpoll rfl [.take .east] []
  rw [hcall, hfirst, hresumed]
  rfl

end DiffusionMesh

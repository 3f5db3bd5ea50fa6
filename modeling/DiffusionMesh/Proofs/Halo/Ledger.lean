/-
# The ledger of a poll

Every act of a poll leaves its mark in three places: on a link, on the counters that all cells
share, and on the exchange and its round.

| act | link | counters | exchange and round |
| --- | --- | --- | --- |
| sent | one frame more, outbound | `sent` | one edge less to send |
| applied | one frame less, inbound | `received` | one edge less to come |
| parked | one frame less, inbound | `received`, `early` | one slot more in use |
| rejected | one frame less, inbound | `received` | |
| hung up | | | one link less to listen to |

`Session.Step` says what one act does and what it presupposes. `Session.poll_induction` carries
what every step keeps over a whole poll, and the marks of its acts add up (`Session.ledger_poll`).
-/

import DiffusionMesh.Proofs.Halo.Turns
import Mathlib.Algebra.BigOperators.Group.List.Basic
import Mathlib.Algebra.Ring.Nat

namespace DiffusionMesh

/-! ### Counting directions -/

/-- One direction more. -/
theorem countP_directions_succ {p q : Direction → Bool} {d : Direction} (hp : p d = false)
    (hq : q d = true) (hne : ∀ e, e ≠ d → q e = p e) :
    Direction.all.countP q = Direction.all.countP p + 1 := by
  have hn := hne .north
  have hs := hne .south
  have he := hne .east
  have hw := hne .west
  cases d <;> simp_all [Direction.all, List.countP_cons] <;> omega

/-- How many of the four are `true`. -/
def Compass.count (c : Compass Bool) : Nat := Direction.all.countP c.get

theorem Compass.count_set_false (c : Compass Bool) {d : Direction} (h : c.get d = true) :
    (c.set d false).count + 1 = c.count :=
  (countP_directions_succ (get_set_self ..) h fun _ he => (get_set_of_ne c he false).symm).symm

/-- The number of those that are in `a` but not in `b`, a part of `a`. -/
theorem countP_directions_diff {a b : Direction → Bool} (h : ∀ d, b d = true → a d = true) :
    Direction.all.countP (fun d => a d && !b d) + Direction.all.countP b =
      Direction.all.countP a := by
  have hsplit : ∀ d, (if b d = true then 1 else 0) + (if (a d && !b d) = true then 1 else 0) =
      if a d = true then 1 else 0 := by
    intro d
    specialize h d
    cases hb : b d <;> cases ha : a d <;> simp_all
  have hn := hsplit .north
  have hs := hsplit .south
  have he := hsplit .east
  have hw := hsplit .west
  simp only [Direction.all, List.countP_cons, List.countP_nil]
  omega

theorem Compass.count_diff {a b : Direction → Bool} (h : ∀ d, b d = true → a d = true) :
    (ofFn fun d => a d && !b d).count = Direction.all.countP a - Direction.all.countP b := by
  have hget : (ofFn fun d => a d && !b d).get = fun d => a d && !b d := funext (get_ofFn _)
  rw [count, hget, ← countP_directions_diff h, Nat.add_sub_cancel]

theorem Compass.count_eq_zero_iff (c : Compass Bool) : c.count = 0 ↔ ∀ d, c.get d = false := by
  rw [count, List.countP_eq_zero]
  exact ⟨fun h d => by simpa using h d (Direction.mem_all d), fun h d _ => by simp [h d]⟩

/-! ### What acts say -/

namespace Act

/-- The frame that was handed to the link of a direction. -/
def sentOn (d : Direction) : Act → List Frame
  | .sent e f => if e = d then [f] else []
  | _ => []

/-- The frame that was taken from the link of a direction. -/
def takenOn (d : Direction) : Act → List Frame
  | .applied e f | .parked e f | .rejected e f => if e = d then [f] else []
  | _ => []

/-- Whether a frame was handed to a link. -/
def sends : Act → Bool
  | .sent _ _ => true
  | _ => false

/-- Whether a frame was taken from a link. -/
def takes : Act → Bool
  | .applied _ _ | .parked _ _ | .rejected _ _ => true
  | _ => false

/-- Whether an edge was kept for the next round. -/
def parks : Act → Bool
  | .parked _ _ => true
  | _ => false

/-- Whether an edge kept from the round before was put to use. -/
def promotes : Act → Bool
  | .promoted _ => true
  | _ => false

/-- Whether a frame was found faulty. -/
def rejects : Act → Bool
  | .rejected _ _ => true
  | _ => false

end Act

/-- The counters after some acts. -/
def Stats.after (s : Stats) (acts : List Act) : Stats where
  sent := s.sent + acts.countP Act.sends
  received := s.received + acts.countP Act.takes
  early := s.early + acts.countP Act.parks

theorem Stats.after_append (s : Stats) (acts more : List Act) :
    s.after (acts ++ more) = (s.after acts).after more := by
  simp only [after, List.countP_append, Nat.add_assoc]

/-- The frames on the way from a cell in a direction. -/
def Ports.outQueue (p : Ports) (d : Direction) : List Frame := (p.outbound.get d).elim [] Link.queue

/-- The frames on the way to a cell from a direction. -/
def Ports.inQueue (p : Ports) (d : Direction) : List Frame := (p.inbound.get d).elim [] Link.queue

/-- The number of slots in use. -/
def Exchange.slots (x : Exchange) : Nat := Direction.all.countP fun d => (x.lookahead.get d).isSome

/-- A link that takes a frame has it at the end of its queue. -/
theorem Link.queue_of_offer {l link : Link} {frame : Frame} (h : l.offer frame = .taken link) :
    link.queue = l.queue ++ [frame] := by
  unfold offer at h
  split at h
  · split at h
    · cases h
      rfl
    · cases h
  · cases h

/-- A link gives the frame at the head of its queue. -/
theorem Link.queue_of_arrival {l link : Link} {frame : Frame}
    (h : l.arrival = .frame frame link) : l.queue = frame :: link.queue := by
  unfold arrival at h
  split at h
  · next f rest hqueue =>
    cases h
    exact hqueue
  · split at h <;> cases h

/-- What a turn did and where that led, unless it did nothing. -/
def Turn.result? : Turn → Option (Act × Session)
  | .acted act next => some (act, next)
  | .rejected link frame _ next => some (.rejected link frame, next)
  | _ => none

/-! ### The start of a round -/

/-- Acts that only put kept edges to use touch neither links nor counters. -/
theorem Act.countP_of_promotes {acts : List Act} (h : ∀ a ∈ acts, a.promotes = true) :
    acts.countP sends = 0 ∧ acts.countP takes = 0 ∧ acts.countP parks = 0 ∧
      acts.countP promotes = acts.length := by
  have hno : ∀ p : Act → Bool, (∀ d, p (.promoted d) = false) → acts.countP p = 0 := by
    intro p hp
    refine List.countP_eq_zero.2 fun a ha => ?_
    have hpromotes := h a ha
    cases a with
    | promoted d => rw [hp]; exact Bool.false_ne_true
    | _ => cases hpromotes
  exact ⟨hno _ fun _ => rfl, hno _ fun _ => rfl, hno _ fun _ => rfl, List.countP_eq_length.2 h⟩

theorem Act.frames_of_promotes {acts : List Act} (h : ∀ a ∈ acts, a.promotes = true)
    (d : Direction) : acts.flatMap (sentOn d) = [] ∧ acts.flatMap (takenOn d) = [] := by
  have hno : ∀ f : Act → List Frame, (∀ e, f (.promoted e) = []) → acts.flatMap f = [] := by
    intro f hf
    refine List.flatMap_eq_nil_iff.2 fun a ha => ?_
    have hpromotes := h a ha
    cases a with
    | promoted e => exact hf e
    | _ => cases hpromotes
  exact ⟨hno _ fun _ => rfl, hno _ fun _ => rfl⟩

theorem Stats.after_of_promotes {acts : List Act} (h : ∀ a ∈ acts, a.promotes = true)
    (s : Stats) : s.after acts = s := by
  obtain ⟨hsends, htakes, hparks, -⟩ := Act.countP_of_promotes h
  simp only [after, hsends, htakes, hparks, Nat.add_zero]

namespace Exchange

variable (x : Exchange) (iteration : UInt32) (outgoing incoming : Compass Edge)

/-- What is done at the start of a round is to put kept edges to use. -/
theorem promotes_start : ∀ a ∈ (x.start iteration outgoing incoming).2.2.2, a.promotes = true := by
  intro a ha
  obtain ⟨d, -, rfl⟩ := List.mem_map.1 ha
  rfl

/-- **Every edge that is put to use at the start of a round frees its slot.** -/
theorem slots_start : (x.start iteration outgoing incoming).1.slots +
    (x.start iteration outgoing incoming).2.2.2.countP Act.promotes = x.slots := by
  have hkept : ∀ d, (x.kept (.ofIteration iteration) d).isSome = true →
      (x.lookahead.get d).isSome = true := by
    intro d hd
    unfold kept at hd
    cases hm : x.lookahead.get d with
    | none => rw [hm] at hd; cases hd
    | some m => rfl
  have hslots : (x.start iteration outgoing incoming).1.slots = Direction.all.countP fun d =>
      (x.lookahead.get d).isSome && !(x.kept (.ofIteration iteration) d).isSome := by
    refine List.countP_congr fun d _ => ?_
    simp only [start, Compass.get_ofFn]
    cases (x.kept (.ofIteration iteration) d).isSome with
    | true => simp
    | false => simp
  obtain ⟨-, -, -, hpromotes⟩ := Act.countP_of_promotes (x.promotes_start iteration outgoing incoming)
  rw [hpromotes, hslots, slots, ← countP_directions_diff hkept]
  simp only [start, List.length_map, List.countP_eq_length_filter]

/-- Neighbors that are listed in the order of directions are counted one by one. -/
theorem neighborCount_eq {p : Direction → Bool} (h : x.sendOrder = Direction.all.filter p) :
    x.neighborCount = Direction.all.countP x.hasNeighbor := by
  have hiff : x.hasNeighbor = p := by
    funext d
    rw [Bool.eq_iff_iff, hasNeighbor, h, List.contains_iff_mem, List.mem_filter,
      and_iff_right (Direction.mem_all d)]
  rw [neighborCount, h, hiff, List.countP_eq_length_filter]

/-- A round begins with its edges to come counted: one for each neighbor, less those from the
slots. -/
theorem counts_start (hneighbors : x.neighborCount = Direction.all.countP x.hasNeighbor)
    (hkept : ∀ d, (x.kept (.ofIteration iteration) d).isSome = true → x.hasNeighbor d = true) :
    (x.start iteration outgoing incoming).2.1.receives =
        (x.start iteration outgoing incoming).2.1.awaiting.count ∧
      (x.start iteration outgoing incoming).2.1.report.promoted +
        (x.start iteration outgoing incoming).2.1.receives = x.neighborCount := by
  have hdiff := countP_directions_diff hkept
  have hcount := Compass.count_diff hkept
  simp only [Option.not_isSome] at hcount
  change x.neighborCount - (Direction.all.filter fun d =>
      (x.kept (.ofIteration iteration) d).isSome).length = (Compass.ofFn fun d =>
      x.hasNeighbor d && (x.kept (.ofIteration iteration) d).isNone).count ∧
    (Direction.all.filter fun d => (x.kept (.ofIteration iteration) d).isSome).length +
      (x.neighborCount - (Direction.all.filter fun d =>
        (x.kept (.ofIteration iteration) d).isSome).length) = x.neighborCount
  rw [← List.countP_eq_length_filter, hneighbors]
  exact ⟨hcount.symm, by omega⟩

end Exchange

/-! ### One act -/

namespace Session

/-- A frame is there to be taken from a direction. -/
structure Arrives (s : Session) (d : Direction) (frame : Frame) (rest : Link) : Prop where
  listening : s.exchange.listening.get d = true
  link : ∃ l, s.ports.inbound.get d = some l ∧ l.arrival = .frame frame rest

/-- A frame holds an edge that is meant to come from a direction. -/
structure Reads (s : Session) (d : Direction) (frame : Frame) (message : EdgeMessage) : Prop where
  decode : EdgeMessage.decode s.exchange.edgeLength frame = .ok message
  direction : message.direction = d

/-- What an act does to a session, and what it presupposes. -/
inductive Step (s : Session) : Act → Session → Prop where
  | sent {d : Direction} {link : Link} : s.exchange.unsent ≠ 0 → s.target? = some d →
      s.offerNext d = .taken link → Step s (.sent d (s.frameFor d)) (s.afterSend d link)
  | applied {d : Direction} {frame : Frame} {rest : Link} {message : EdgeMessage} :
      s.Arrives d frame rest → s.Reads d frame message → message.parity = s.round.parity →
      s.round.awaiting.get d = true →
      Step s (.applied d frame) ((s.afterTake d rest).afterApply d message.edge)
  | parked {d : Direction} {frame : Frame} {rest : Link} {message : EdgeMessage} :
      s.Arrives d frame rest → s.Reads d frame message → message.parity ≠ s.round.parity →
      s.exchange.lookahead.get d = none →
      Step s (.parked d frame) ((s.afterTake d rest).afterPark d message)
  | rejected {d : Direction} {frame : Frame} {rest : Link} : s.Arrives d frame rest →
      Step s (.rejected d frame) (s.afterTake d rest)
  | hungUp {d : Direction} : s.exchange.listening.get d = true →
      Step s (.hungUp d) (s.afterHangUp d)

variable {s next : Session} {act : Act} {d : Direction} {frame : Frame} {rest : Link}

/-- A frame that is judged is put to use, kept, or found faulty. -/
theorem Step.of_judge (h : s.Arrives d frame rest)
    (hturn : ((s.afterTake d rest).judge d frame).result? = some (act, next)) :
    s.Step act next := by
  unfold judge at hturn
  split at hturn
  · obtain ⟨rfl, rfl⟩ := Prod.mk.inj (Option.some.inj hturn)
    exact .rejected h
  · next message hdecode =>
    split at hturn
    · obtain ⟨rfl, rfl⟩ := Prod.mk.inj (Option.some.inj hturn)
      exact .rejected h
    · next hdirection =>
      have hreads : s.Reads d frame message := ⟨hdecode, Decidable.not_not.1 hdirection⟩
      split at hturn
      · next hparity =>
        split at hturn
        · next hawaiting =>
          obtain ⟨rfl, rfl⟩ := Prod.mk.inj (Option.some.inj hturn)
          exact .applied h hreads hparity hawaiting
        · obtain ⟨rfl, rfl⟩ := Prod.mk.inj (Option.some.inj hturn)
          exact .rejected h
      · next hparity =>
        split at hturn
        · obtain ⟨rfl, rfl⟩ := Prod.mk.inj (Option.some.inj hturn)
          exact .rejected h
        · next hfree =>
          rw [Bool.not_eq_true, Option.isSome_eq_false_iff, Option.isNone_iff_eq_none] at hfree
          obtain ⟨rfl, rfl⟩ := Prod.mk.inj (Option.some.inj hturn)
          exact .parked h hreads hparity hfree

/-- **A turn with a result takes a step.** -/
theorem Step.of_turn (hturn : s.turn.result? = some (act, next)) : s.Step act next := by
  have hdoes := s.does_turn
  generalize s.turn = turn at hdoes hturn
  cases hdoes with
  | sent hunsent htarget hoffer =>
    obtain ⟨rfl, rfl⟩ := Prod.mk.inj (Option.some.inj hturn)
    exact .sent hunsent htarget hoffer
  | took hopen hlink harrival => exact .of_judge ⟨hopen, _, hlink, harrival⟩ hturn
  | hungUp hopen _ _ =>
    obtain ⟨rfl, rfl⟩ := Prod.mk.inj (Option.some.inj hturn)
    exact .hungUp hopen
  | _ => cases hturn

/-! ### A whole poll -/

/-- **What every step keeps, a poll keeps.** -/
theorem poll_induction {motive : List Act → Session → Prop} (s : Session) (start : motive [] s)
    (step : ∀ {acts s act next}, motive acts s → Step s act next → motive (acts ++ [act]) next) :
    motive s.poll.acts s.poll.session := by
  have hall : ∀ past, motive past s → motive (past ++ s.poll.acts) s.poll.session := by
    clear start
    induction s using Session.poll.induct with
    | case1 s act next hturn _ ih =>
      intro past hpast
      rw [poll_of_acted hturn]
      have hnext := ih (past ++ [act]) (step hpast (.of_turn (by rw [hturn]; rfl)))
      rwa [List.append_assoc] at hnext
    | case2 s link frame cause next hturn =>
      intro past hpast
      rw [poll_of_rejected hturn]
      exact step hpast (.of_turn (by rw [hturn]; rfl))
    | case3 s link hturn =>
      intro past hpast
      rw [poll_of_severed hturn, List.append_nil]
      exact hpast
    | case4 s hturn =>
      intro past hpast
      rw [poll_of_finished hturn, List.append_nil]
      exact hpast
    | case5 s hturn =>
      intro past hpast
      rw [poll_of_waiting hturn, List.append_nil]
      exact hpast
    | case6 s hturn =>
      intro past hpast
      rw [poll_of_stuck hturn, List.append_nil]
      exact hpast
  exact hall [] start

/-- A frame that is judged neither ends the round in peace nor makes it wait. -/
theorem judge_ne_finished (s : Session) (d : Direction) (frame : Frame) :
    s.judge d frame ≠ .finished := by
  unfold judge
  repeat' split
  all_goals exact nofun

/-- A round is over when nothing is left to send and nothing to come. -/
theorem finished_of_turn (h : s.turn = .finished) :
    s.exchange.unsent = 0 ∧ s.round.receives = 0 := by
  have hdoes := s.does_turn
  rw [h] at hdoes
  generalize hturn : Turn.finished = turn at hdoes
  cases hdoes with
  | finished hunsent hreceives => exact ⟨hunsent, hreceives⟩
  | took => exact absurd hturn.symm (judge_ne_finished _ _ _)
  | _ => cases hturn

/-- A round does not go on after a faulty frame. -/
theorem rejects_of_acted (h : s.turn = .acted act next) : act.rejects = false := by
  have hdoes := s.does_turn
  rw [h] at hdoes
  generalize hturn : Turn.acted act next = turn at hdoes
  cases hdoes with
  | sent => cases hturn; rfl
  | hungUp => cases hturn; rfl
  | @took d link link' frame =>
    unfold judge at hturn
    repeat' split at hturn
    all_goals first | cases hturn; rfl | cases hturn
  | _ => cases hturn

/-- **A poll that finishes** has nothing left to send or to come. -/
theorem poll_finished {report : Report} (s : Session) (h : s.poll.verdict = .finished report) :
    report = s.poll.session.round.report ∧ s.poll.session.exchange.unsent = 0 ∧
      s.poll.session.round.receives = 0 := by
  induction s using Session.poll.induct with
  | case1 s act next hturn _ ih =>
    rw [poll_of_acted hturn] at h ⊢
    exact ih h
  | case4 s hturn =>
    rw [poll_of_finished hturn] at h ⊢
    obtain ⟨hunsent, hreceives⟩ := finished_of_turn hturn
    cases h
    exact ⟨rfl, hunsent, hreceives⟩
  | case2 s link frame cause next hturn => rw [poll_of_rejected hturn] at h; cases h
  | case3 s link hturn => rw [poll_of_severed hturn] at h; cases h
  | case5 s hturn => rw [poll_of_waiting hturn] at h; cases h
  | case6 s hturn => rw [poll_of_stuck hturn] at h; cases h

/-- **A poll that does not fail** has found no frame faulty. -/
theorem rejects_of_poll (s : Session) (h : ∀ cause, s.poll.verdict ≠ .failed cause) :
    ∀ a ∈ s.poll.acts, a.rejects = false := by
  induction s using Session.poll.induct with
  | case1 s act next hturn _ ih =>
    rw [poll_of_acted hturn] at h ⊢
    exact List.forall_mem_cons.2 ⟨rejects_of_acted hturn, ih h⟩
  | case2 s link frame cause next hturn =>
    rw [poll_of_rejected hturn] at h
    exact absurd rfl (h cause)
  | case3 s link hturn =>
    rw [poll_of_severed hturn] at h
    exact absurd rfl (h _)
  | case4 s hturn =>
    rw [poll_of_finished hturn]
    exact fun _ ha => absurd ha List.not_mem_nil
  | case5 s hturn =>
    rw [poll_of_waiting hturn]
    exact fun _ ha => absurd ha List.not_mem_nil
  | case6 s hturn =>
    rw [poll_of_stuck hturn]
    exact fun _ ha => absurd ha List.not_mem_nil

/-! ### What acts leave behind -/

/-- What acts leave behind: every frame sent stands at the end of its queue, every frame taken stood
at the head of its queue, counters and slots have grown by the number of acts that say so, and
nothing else has changed but what is left to do. -/
structure Ledger (s : Session) (acts : List Act) (next : Session) : Prop where
  outQueue : ∀ d, next.ports.outQueue d = s.ports.outQueue d ++ acts.flatMap (Act.sentOn d)
  inQueue : ∀ d, s.ports.inQueue d = acts.flatMap (Act.takenOn d) ++ next.ports.inQueue d
  outbound : ∀ d, (next.ports.outbound.get d).isSome = (s.ports.outbound.get d).isSome
  inbound : ∀ d, (next.ports.inbound.get d).isSome = (s.ports.inbound.get d).isSome
  stats : next.stats = s.stats.after acts
  slots : next.exchange.slots = s.exchange.slots + acts.countP Act.parks
  early : next.round.report.early = s.round.report.early + acts.countP Act.parks
  promoted : acts.countP Act.promotes = 0
  cell : next.exchange.cell = s.exchange.cell
  edgeLength : next.exchange.edgeLength = s.exchange.edgeLength
  sendOrder : next.exchange.sendOrder = s.exchange.sendOrder
  listening : ∀ d, next.exchange.listening.get d = true → s.exchange.listening.get d = true
  iteration : next.round.iteration = s.round.iteration
  outgoing : next.round.outgoing = s.round.outgoing

theorem Ledger.refl (s : Session) : s.Ledger [] s where
  outQueue _ := (List.append_nil _).symm
  inQueue _ := rfl
  outbound _ := rfl
  inbound _ := rfl
  stats := rfl
  slots := rfl
  early := rfl
  promoted := rfl
  cell := rfl
  edgeLength := rfl
  sendOrder := rfl
  listening _ h := h
  iteration := rfl
  outgoing := rfl

theorem Ledger.trans {acts more : List Act} {last : Session} (h : s.Ledger acts next)
    (h' : next.Ledger more last) : s.Ledger (acts ++ more) last where
  outQueue d := by rw [h'.outQueue, h.outQueue, List.flatMap_append, List.append_assoc]
  inQueue d := by rw [h.inQueue, h'.inQueue, List.flatMap_append, List.append_assoc]
  outbound d := (h'.outbound d).trans (h.outbound d)
  inbound d := (h'.inbound d).trans (h.inbound d)
  stats := by rw [h'.stats, h.stats, Stats.after_append]
  slots := by rw [h'.slots, h.slots, List.countP_append, Nat.add_assoc]
  early := by rw [h'.early, h.early, List.countP_append, Nat.add_assoc]
  promoted := by rw [List.countP_append, h.promoted, h'.promoted]
  cell := h'.cell.trans h.cell
  edgeLength := h'.edgeLength.trans h.edgeLength
  sendOrder := h'.sendOrder.trans h.sendOrder
  listening d hd := h.listening d (h'.listening d hd)
  iteration := h'.iteration.trans h.iteration
  outgoing := h'.outgoing.trans h.outgoing

/-- A frame that is sent goes to the end of one queue. -/
theorem ledger_afterSend {link : Link} (hoffer : s.offerNext d = .taken link) :
    s.Ledger [.sent d (s.frameFor d)] (s.afterSend d link) := by
  have hlink : ∃ l, s.ports.outbound.get d = some l ∧ link.queue = l.queue ++ [s.frameFor d] := by
    unfold offerNext at hoffer
    split at hoffer
    · next l hl => exact ⟨l, hl, Link.queue_of_offer hoffer⟩
    · cases hoffer
  obtain ⟨l, hl, hqueue⟩ := hlink
  refine { Ledger.refl s with outQueue := fun e => ?_, outbound := fun e => ?_, stats := rfl }
  · simp only [afterSend, Ports.outQueue, Compass.get_set, List.flatMap_singleton, Act.sentOn]
    by_cases he : e = d
    · rw [if_pos he, if_pos he.symm, he, hl]
      exact hqueue
    · rw [if_neg he, if_neg (Ne.symm he), List.append_nil]
  · simp only [afterSend, Compass.get_set]
    split
    · next he => rw [he, hl, Option.isSome_some, Option.isSome_some]
    · rfl

/-- A frame that is taken leaves the head of one queue, whatever is made of it. -/
theorem ledger_afterTake (h : s.Arrives d frame rest) :
    s.Ledger [.rejected d frame] (s.afterTake d rest) := by
  obtain ⟨l, hl, harrival⟩ := h.link
  have hqueue := Link.queue_of_arrival harrival
  refine { Ledger.refl s with inQueue := fun e => ?_, inbound := fun e => ?_, stats := rfl }
  · simp only [afterTake, Ports.inQueue, Compass.get_set, List.flatMap_singleton, Act.takenOn]
    by_cases he : e = d
    · rw [if_pos he, if_pos he.symm, he, hl]
      exact hqueue
    · rw [if_neg he, if_neg (Ne.symm he), List.nil_append]
  · simp only [afterTake, Compass.get_set]
    split
    · next he => rw [he, hl, Option.isSome_some, Option.isSome_some]
    · rfl

/-- **Every step keeps the ledger.** -/
theorem Step.ledger (h : s.Step act next) : s.Ledger [act] next := by
  cases h with
  | sent _ _ hoffer => exact ledger_afterSend hoffer
  | applied harrives _ _ _ => exact { ledger_afterTake harrives with }
  | @parked d frame rest message harrives _ _ hfree =>
    refine { ledger_afterTake harrives with
      stats := rfl
      slots := countP_directions_succ (d := d) ?_ ?_ fun e he => ?_
      early := rfl }
    · rw [hfree]
      rfl
    · change ((s.exchange.lookahead.set d (some message)).get d).isSome = true
      rw [Compass.get_set_self, Option.isSome_some]
    · change ((s.exchange.lookahead.set d (some message)).get e).isSome = _
      rw [Compass.get_set_of_ne _ he]
  | rejected harrives => exact ledger_afterTake harrives
  | @hungUp d hopen =>
    refine { Ledger.refl s with listening := fun e he => ?_ }
    change (s.exchange.listening.set d false).get e = true at he
    rw [Compass.get_set] at he
    split at he
    · cases he
    · exact he

/-- **A poll keeps the ledger.** -/
theorem ledger_poll (s : Session) : s.Ledger s.poll.acts s.poll.session :=
  poll_induction s (.refl s) fun h hstep => h.trans hstep.ledger

end Session

/-! ### Frames on the way -/

/-- The frames that are on the way to a cell or from it. -/
def Ports.queued (p : Ports) : Nat :=
  (Direction.all.map fun d => (p.outQueue d).length + (p.inQueue d).length).sum

/-- Only acts that send hand frames to links. -/
theorem Act.flatMap_sentOn_filter (acts : List Act) (d : Direction) :
    (acts.filter sends).flatMap (sentOn d) = acts.flatMap (sentOn d) := by
  induction acts with
  | nil => rfl
  | cons act acts ih =>
    rw [List.flatMap_cons, ← ih]
    cases act with
    | sent e frame => rw [List.filter_cons_of_pos rfl, List.flatMap_cons]
    | _ => rfl

/-- One frame for each of some directions. -/
theorem Act.flatMap_sentOn_map {ds : List Direction} (h : ds.Nodup) (f : Direction → Frame)
    (d : Direction) : (ds.map fun e => Act.sent e (f e)).flatMap (sentOn d) =
      if d ∈ ds then [f d] else [] := by
  induction ds with
  | nil => rfl
  | cons e ds ih =>
    obtain ⟨hnotin, hds⟩ := List.nodup_cons.1 h
    rw [List.map_cons, List.flatMap_cons, ih hds, sentOn]
    by_cases he : e = d
    · subst he
      rw [if_pos rfl, if_neg hnotin, if_pos List.mem_cons_self, List.append_nil]
    · rw [if_neg he, List.nil_append]
      simp only [List.mem_cons, Ne.symm he, false_or]

/-- Over all directions, acts hand as many frames to links as there are acts that do. -/
theorem Act.sum_sentOn (acts : List Act) :
    (Direction.all.map fun d => (acts.flatMap (sentOn d)).length).sum = acts.countP sends := by
  induction acts with
  | nil => rfl
  | cons act acts ih =>
    have hact : (Direction.all.map fun d => (act.sentOn d).length).sum =
        if act.sends then 1 else 0 := by
      cases act with
      | sent e frame => cases e <;> rfl
      | _ => rfl
    simp only [List.flatMap_cons, List.length_append, List.sum_map_add, List.countP_cons, ih, hact]
    omega

/-- Over all directions, acts take as many frames from links as there are acts that do. -/
theorem Act.sum_takenOn (acts : List Act) :
    (Direction.all.map fun d => (acts.flatMap (takenOn d)).length).sum = acts.countP takes := by
  induction acts with
  | nil => rfl
  | cons act acts ih =>
    have hact : (Direction.all.map fun d => (act.takenOn d).length).sum =
        if act.takes then 1 else 0 := by
      cases act with
      | applied e frame => cases e <;> rfl
      | parked e frame => cases e <;> rfl
      | rejected e frame => cases e <;> rfl
      | _ => rfl
    simp only [List.flatMap_cons, List.length_append, List.sum_map_add, List.countP_cons, ih, hact]
    omega

/-- **The frames at a cell** are more by those it has sent and fewer by those it has taken. -/
theorem Session.Ledger.queued {s next : Session} {acts : List Act} (h : s.Ledger acts next) :
    next.ports.queued + acts.countP Act.takes = s.ports.queued + acts.countP Act.sends := by
  have hout : ∀ d, (next.ports.outQueue d).length =
      (s.ports.outQueue d).length + (acts.flatMap (Act.sentOn d)).length := by
    intro d
    rw [h.outQueue, List.length_append]
  have hin : ∀ d, (s.ports.inQueue d).length =
      (acts.flatMap (Act.takenOn d)).length + (next.ports.inQueue d).length := by
    intro d
    rw [h.inQueue, List.length_append]
  simp only [Ports.queued, hout, hin, List.sum_map_add, Act.sum_sentOn, Act.sum_takenOn]
  omega

end DiffusionMesh

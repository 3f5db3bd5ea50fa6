/-
# What a turn does

`Session.turn` picks the first thing that applies. `Session.Does` lists what a turn can be, each
with what it presupposes, so that a fact about all turns is one case analysis (`does_turn`). A
poll is a sequence of turns; `poll_of_acted` and its companions take one turn off its front.
-/

import DiffusionMesh.Halo.Turn

namespace DiffusionMesh

/-- Whether a frame was handed to a link or taken from one. -/
def Act.moves : Act → Bool
  | .sent _ _ | .applied _ _ | .parked _ _ | .rejected _ _ => true
  | .promoted _ | .hungUp _ => false

namespace Session

variable (s : Session)

/-- The direction in which the next edge is sent. -/
def target? : Option Direction := s.exchange.sendOrder[s.round.nextSend]?

/-- No edge can be sent: all of them have been, or the next link is full. -/
def Blocked : Prop := s.exchange.unsent = 0 ∨ ∃ d, s.target? = some d ∧ s.offerNext d = .full

/-- No frame can be taken: every link that is listened to has nothing for now. -/
def Silent : Prop :=
  ∀ d l, s.exchange.listening.get d = true → s.ports.inbound.get d = some l →
    l.arrival = .nothing

/-- What a turn can be, and what each outcome presupposes. -/
inductive Does : Turn → Prop where
  | finished : s.exchange.unsent = 0 → s.round.receives = 0 → Does .finished
  /-- The link of an awaited edge has been seen closed. -/
  | unheard {d : Direction} : s.round.awaiting.get d = true →
      s.exchange.listening.get d = false → Does (.severed d)
  /-- The link of the next edge has lost its receiver. -/
  | refused {d : Direction} : s.exchange.unsent ≠ 0 → s.target? = some d →
      s.offerNext d = .refused → Does (.severed d)
  | sent {d : Direction} {link : Link} : s.exchange.unsent ≠ 0 → s.target? = some d →
      s.offerNext d = .taken link →
      Does (.acted (.sent d (s.frameFor d)) (s.afterSend d link))
  | took {d : Direction} {link link' : Link} {frame : Frame} :
      s.exchange.listening.get d = true → s.ports.inbound.get d = some link →
      link.arrival = .frame frame link' → Does ((s.afterTake d link').judge d frame)
  | hungUp {d : Direction} {link : Link} : s.exchange.listening.get d = true →
      s.ports.inbound.get d = some link → link.arrival = .hungUp →
      Does (.acted (.hungUp d) (s.afterHangUp d))
  | waiting : (∀ d, s.round.awaiting.get d = true → s.exchange.listening.get d = true) →
      ¬ (s.exchange.unsent = 0 ∧ s.round.receives = 0) → s.Blocked → s.Silent → Does .waiting
  /-- There are edges to send but no direction to send them in. -/
  | aimless : s.exchange.unsent ≠ 0 → s.target? = none → Does .stuck
  /-- There are edges to come but no link is listened to. -/
  | deaf : (∀ d, s.round.awaiting.get d = true → s.exchange.listening.get d = true) →
      s.exchange.unsent = 0 → s.round.receives ≠ 0 → (∀ d, s.exchange.listening.get d = false) →
      Does .stuck

theorem heard_of_severedLink_eq_none (h : s.severedLink = none) (d : Direction)
    (hd : s.round.awaiting.get d = true) : s.exchange.listening.get d = true := by
  have := List.find?_eq_none.1 h d (Direction.mem_all d)
  simpa [hd] using this

theorem of_severedLink_eq_some {d : Direction} (h : s.severedLink = some d) :
    s.round.awaiting.get d = true ∧ s.exchange.listening.get d = false := by
  simpa using List.find?_some h

/-- A search for frames that comes back with a turn took a frame or saw a link closed. -/
theorem does_of_receiveFrom {ds : List Direction} {turn : Turn}
    (h : s.receiveFrom ds = some turn) : s.Does turn := by
  induction ds with
  | nil => cases h
  | cons d rest ih =>
    simp only [receiveFrom] at h
    split at h
    · next hopen =>
      split at h
      · next frame link' harr =>
        obtain ⟨link, hlink, harr⟩ := Option.map_eq_some_iff.1 harr
        obtain rfl := Option.some.inj h
        exact .took hopen hlink harr
      · next harr =>
        obtain ⟨link, hlink, harr⟩ := Option.map_eq_some_iff.1 harr
        obtain rfl := Option.some.inj h
        exact .hungUp hopen hlink harr
      · exact ih h
    · exact ih h

/-- A search that comes back with nothing found nothing on any link. -/
theorem silent_of_receiveFrom {ds : List Direction} (h : s.receiveFrom ds = none) :
    ∀ d ∈ ds, ∀ l, s.exchange.listening.get d = true → s.ports.inbound.get d = some l →
      l.arrival = .nothing := by
  induction ds with
  | nil => exact fun d hd => absurd hd List.not_mem_nil
  | cons d rest ih =>
    simp only [receiveFrom] at h
    intro e he l hopen hlink
    split at h
    · split at h
      · cases h
      · cases h
      · next hframe hhung =>
        rcases List.mem_cons.1 he with rfl | he
        · rw [hlink, Option.map_some] at hframe hhung
          cases harr : l.arrival with
          | nothing => rfl
          | hungUp => exact absurd (congrArg some harr) hhung
          | frame frame link => exact absurd (congrArg some harr) (hframe frame link)
        · exact ih h e he l hopen hlink
    · next hclosed =>
      rcases List.mem_cons.1 he with rfl | he
      · exact absurd hopen hclosed
      · exact ih h e he l hopen hlink

theorem does_receive (hheard : ∀ d, s.round.awaiting.get d = true →
      s.exchange.listening.get d = true)
    (hleft : ¬ (s.exchange.unsent = 0 ∧ s.round.receives = 0)) (hblocked : s.Blocked) :
    s.Does s.receive := by
  unfold receive
  split
  · next turn h => exact s.does_of_receiveFrom h
  · next h =>
    have hsilent : s.Silent := fun d l => s.silent_of_receiveFrom h d (Direction.mem_all d) l
    split
    · exact .waiting hheard hleft hblocked hsilent
    · next hcan =>
      simp only [ne_eq, Bool.or_eq_true, decide_eq_true_eq, not_or, Decidable.not_not, canReceive,
        List.any_eq_true, not_exists, not_and, Bool.not_eq_true] at hcan
      exact .deaf hheard hcan.2 (fun h0 => hleft ⟨hcan.2, h0⟩)
        fun d => hcan.1 d (Direction.mem_all d)

/-- **Every turn is one of the outcomes.** -/
theorem does_turn : s.Does s.turn := by
  unfold turn
  split
  · next h => exact .finished h.1 h.2
  · next hleft =>
    split
    · next d h => exact .unheard (s.of_severedLink_eq_some h).1 (s.of_severedLink_eq_some h).2
    · next h =>
      have hheard := s.heard_of_severedLink_eq_none h
      split
      · next hsent => exact s.does_receive hheard hleft (.inl hsent)
      · next hsend =>
        split
        · next hnext => exact .aimless hsend hnext
        · next d hnext =>
          split
          · next hoffer => exact .refused hsend hnext hoffer
          · next link hoffer => exact .sent hsend hnext hoffer
          · next hoffer => exact s.does_receive hheard hleft (.inr ⟨d, hnext, hoffer⟩)

/-! ### Polls, one turn at a time -/

variable {s}

theorem poll_of_acted {act : Act} {next : Session} (h : s.turn = .acted act next) :
    s.poll = { next.poll with acts := act :: next.poll.acts } := by
  rw [poll]
  split <;> simp_all

theorem poll_of_rejected {d : Direction} {frame : Frame} {cause : Failure} {next : Session}
    (h : s.turn = .rejected d frame cause next) :
    s.poll = ⟨[.rejected d frame], next, .failed cause⟩ := by
  rw [poll]
  split <;> simp_all

theorem poll_of_severed {d : Direction} (h : s.turn = .severed d) :
    s.poll = ⟨[], s, .failed (.linkClosed s.exchange.cell d s.round.iteration)⟩ := by
  rw [poll]
  split <;> simp_all

theorem poll_of_finished (h : s.turn = .finished) :
    s.poll = ⟨[], s, .finished s.round.report⟩ := by
  rw [poll]
  split <;> simp_all

theorem poll_of_waiting (h : s.turn = .waiting) : s.poll = ⟨[], s, .waiting⟩ := by
  rw [poll]
  split <;> simp_all

theorem poll_of_stuck (h : s.turn = .stuck) : s.poll = ⟨[], s, .waiting⟩ := by
  rw [poll]
  split <;> simp_all

/-- A frame that is judged has been taken, whatever becomes of it. -/
theorem moves_of_judge {d : Direction} {frame : Frame} {act : Act} {next : Session}
    (h : s.judge d frame = .acted act next) : act.moves = true := by
  unfold judge at h
  repeat' split at h
  all_goals first | cases h; rfl | cases h

/-- A turn that neither sends nor takes notes a link that is closed. -/
theorem eq_afterHangUp_of_turn {act : Act} {next : Session} (h : s.turn = .acted act next)
    (hact : act.moves = false) : ∃ d, next = s.afterHangUp d := by
  have hdoes := s.does_turn
  rw [h] at hdoes
  generalize hturn : Turn.acted act next = turn at hdoes
  cases hdoes with
  | sent =>
    cases hturn
    cases hact
  | took =>
    rw [moves_of_judge hturn.symm] at hact
    cases hact
  | @hungUp d =>
    cases hturn
    exact ⟨d, rfl⟩
  | _ => cases hturn

/-- **A poll that sends and takes nothing has at most noted links that are closed.** -/
theorem poll_still (s : Session) (h : s.poll.acts.countP Act.moves = 0) : ∃ listening,
    s.poll.session = { s with exchange := { s.exchange with listening := listening } } := by
  induction s using Session.poll.induct with
  | case1 s act next hturn _ ih =>
    rw [poll_of_acted hturn] at h ⊢
    have hact : act.moves = false := by
      rw [List.countP_eq_zero] at h
      simpa using h act List.mem_cons_self
    rw [List.countP_cons_of_neg (by rw [hact]; exact Bool.false_ne_true)] at h
    obtain ⟨d, rfl⟩ := eq_afterHangUp_of_turn hturn hact
    obtain ⟨listening, hrest⟩ := ih h
    exact ⟨listening, hrest⟩
  | case2 s link frame cause next hturn =>
    rw [poll_of_rejected hturn] at h
    cases h
  | case3 s link hturn =>
    rw [poll_of_severed hturn]
    exact ⟨_, rfl⟩
  | case4 s hturn =>
    rw [poll_of_finished hturn]
    exact ⟨_, rfl⟩
  | case5 s hturn =>
    rw [poll_of_waiting hturn]
    exact ⟨_, rfl⟩
  | case6 s hturn =>
    rw [poll_of_stuck hturn]
    exact ⟨_, rfl⟩

end Session
end DiffusionMesh

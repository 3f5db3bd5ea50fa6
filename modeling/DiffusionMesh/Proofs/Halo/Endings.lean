/-
# How a poll ends

A poll is a number of turns that act, and one more that does not go on:

| the last turn | the poll |
| --- | --- |
| takes a frame and rejects it | fails with what is wrong with the frame |
| finds a link closed | fails with that link |
| finds nothing left to do | finishes |
| finds nothing it can do | waits |

So what a poll comes to depends on the session before its last turn alone (`Session.EndsIn`), and
what every turn that acts keeps is true there and at every turn before (`Session.exists_course`).
What the last session is like is read off the last turn (`Session.severed_of_turn` and its
companions).
-/

import DiffusionMesh.Proofs.Halo.Ledger

namespace DiffusionMesh

/-- A link with nothing more to come is empty, and its sending end is given up. -/
theorem Link.of_hungUp {l : Link} (h : l.arrival = .hungUp) :
    l.queue = [] ∧ l.senderOpen = false := by
  unfold arrival at h
  split at h
  · cases h
  · next hqueue =>
    split at h
    · cases h
    · next hopen => exact ⟨hqueue, Bool.not_eq_true _ ▸ hopen⟩

/-- A link with nothing for now is empty, and its sending end is held. -/
theorem Link.of_nothing {l : Link} (h : l.arrival = .nothing) :
    l.queue = [] ∧ l.senderOpen = true := by
  unfold arrival at h
  split at h
  · cases h
  · next hqueue =>
    split at h
    · next hopen => exact ⟨hqueue, hopen⟩
    · cases h

/-- The frame that an act takes from a link is the one it names. -/
theorem Act.eq_of_taken {d e : Direction} {f frame : Frame}
    (h : (if e = d then [f] else []) = [frame]) : e = d ∧ f = frame := by
  split at h
  · next he => exact ⟨he, List.singleton_inj.1 h⟩
  · cases h

namespace Session

variable {s next : Session} {d : Direction} {frame : Frame}

/-- A frame that is judged is put to use or kept, or it is rejected and changes nothing. -/
theorem judge_cases (s : Session) (d : Direction) (frame : Frame) :
    (∃ act next, s.judge d frame = .acted act next ∧
        (act = .applied d frame ∨ act = .parked d frame)) ∨
      ∃ cause, s.judge d frame = .rejected d frame cause s := by
  unfold judge
  split
  · exact .inr ⟨_, rfl⟩
  · split
    · exact .inr ⟨_, rfl⟩
    · split
      · split
        · exact .inl ⟨_, _, rfl, .inl rfl⟩
        · exact .inr ⟨_, rfl⟩
      · split
        · exact .inr ⟨_, rfl⟩
        · exact .inl ⟨_, _, rfl, .inr rfl⟩

theorem result?_judge (s : Session) (d : Direction) (frame : Frame) :
    (s.judge d frame).result? ≠ none := by
  rcases s.judge_cases d frame with ⟨act, next, h, -⟩ | ⟨cause, h⟩
  · rw [h]
    exact nofun
  · rw [h]
    exact nofun

/-! ### What the last turn tells -/

/-- A turn that rejects a frame has taken it. -/
theorem rejected_of_turn {cause : Failure} (h : s.turn = .rejected d frame cause next) :
    ∃ rest, s.Arrives d frame rest ∧ next = s.afterTake d rest ∧
      (s.afterTake d rest).judge d frame = .rejected d frame cause (s.afterTake d rest) := by
  have hdoes := s.does_turn
  rw [h] at hdoes
  generalize hturn : Turn.rejected d frame cause next = turn at hdoes
  cases hdoes with
  | @took e link rest f hopen hlink harrival =>
    rcases (s.afterTake e rest).judge_cases e f with ⟨_, _, hacted, -⟩ | ⟨_, hrejected⟩
    · cases hturn.trans hacted
    · cases hturn.trans hrejected
      exact ⟨rest, ⟨hopen, link, hlink, harrival⟩, rfl, hrejected⟩
  | _ => cases hturn

/-- A turn that acts on a frame has taken it and found nothing wrong with it. -/
theorem taken_of_turn {act : Act} (h : s.turn = .acted act next)
    (htaken : act.takenOn d = [frame]) : ∃ rest, s.Arrives d frame rest ∧
      (s.afterTake d rest).judge d frame = .acted act next := by
  have hdoes := s.does_turn
  rw [h] at hdoes
  generalize hturn : Turn.acted act next = turn at hdoes
  cases hdoes with
  | @took e link rest f hopen hlink harrival =>
    rcases (s.afterTake e rest).judge_cases e f with ⟨_, _, hacted, hact⟩ | ⟨_, hrejected⟩
    · cases hturn.trans hacted
      rcases hact with rfl | rfl
      · obtain ⟨rfl, rfl⟩ := Act.eq_of_taken htaken
        exact ⟨rest, ⟨hopen, link, hlink, harrival⟩, rfl⟩
      · obtain ⟨rfl, rfl⟩ := Act.eq_of_taken htaken
        exact ⟨rest, ⟨hopen, link, hlink, harrival⟩, rfl⟩
    · cases hturn.trans hrejected
  | sent | hungUp =>
    cases hturn
    cases htaken
  | _ => cases hturn

/-- A link is noted as closed when its sender is gone and its queue is empty. -/
theorem hungUp_of_turn (h : s.turn = .acted (.hungUp d) next) :
    ∃ link, s.ports.inbound.get d = some link ∧ link.queue = [] ∧ link.senderOpen = false ∧
      next = s.afterHangUp d := by
  have hdoes := s.does_turn
  rw [h] at hdoes
  generalize hturn : Turn.acted (.hungUp d) next = turn at hdoes
  cases hdoes with
  | @hungUp e link _ hlink harrival =>
    cases hturn
    obtain ⟨hqueue, hopen⟩ := Link.of_hungUp harrival
    exact ⟨link, hlink, hqueue, hopen, rfl⟩
  | @took e _ rest f =>
    rcases (s.afterTake e rest).judge_cases e f with ⟨_, _, hjudge, rfl | rfl⟩ | ⟨_, hjudge⟩
    · cases hturn.trans hjudge
    · cases hturn.trans hjudge
    · cases hturn.trans hjudge
  | _ => cases hturn

/-- A round fails over a link that it awaits an edge from or is to send the next edge on. -/
theorem severed_of_turn (h : s.turn = .severed d) :
    (s.round.awaiting.get d = true ∧ s.exchange.listening.get d = false) ∨
      (s.target? = some d ∧ s.offerNext d = .refused) := by
  have hdoes := s.does_turn
  rw [h] at hdoes
  generalize hturn : Turn.severed d = turn at hdoes
  cases hdoes with
  | unheard hawaiting hclosed =>
    cases hturn
    exact .inl ⟨hawaiting, hclosed⟩
  | refused _ htarget hoffer =>
    cases hturn
    exact .inr ⟨htarget, hoffer⟩
  | took => exact absurd (congrArg Turn.result? hturn).symm (result?_judge _ _ _)
  | _ => cases hturn

/-- A round waits while all links that it needs are open, the next one is full, and nothing is there
to be taken. -/
theorem waiting_of_turn (h : s.turn = .waiting) :
    (∀ d, s.round.awaiting.get d = true → s.exchange.listening.get d = true) ∧
      s.Blocked ∧ s.Silent := by
  have hdoes := s.does_turn
  rw [h] at hdoes
  generalize hturn : Turn.waiting = turn at hdoes
  cases hdoes with
  | waiting hheard _ hblocked hsilent => exact ⟨hheard, hblocked, hsilent⟩
  | took => exact absurd (congrArg Turn.result? hturn).symm (result?_judge _ _ _)
  | _ => cases hturn

/-- A round is stuck if it is to send in no direction, or to take from no link. -/
theorem stuck_of_turn (h : s.turn = .stuck) :
    (s.exchange.unsent ≠ 0 ∧ s.target? = none) ∨
      (s.round.receives ≠ 0 ∧ ∀ d, s.round.awaiting.get d = false) := by
  have hdoes := s.does_turn
  rw [h] at hdoes
  generalize hturn : Turn.stuck = turn at hdoes
  cases hdoes with
  | aimless hunsent htarget => exact .inl ⟨hunsent, htarget⟩
  | deaf hheard _ hreceives hclosed =>
    refine .inr ⟨hreceives, fun d => ?_⟩
    by_contra hawaiting
    rw [Bool.not_eq_false] at hawaiting
    cases (hclosed d).symm.trans (hheard d hawaiting)
  | took => exact absurd (congrArg Turn.result? hturn).symm (result?_judge _ _ _)
  | _ => cases hturn

/-! ### The session before the last turn -/

/-- What a poll comes to, from the session before its last turn and the acts up to there. -/
inductive EndsIn (last : Session) (past : List Act) : Poll → Prop where
  | rejected {d : Direction} {frame : Frame} {rest : Link} {cause : Failure} :
      last.Arrives d frame rest →
      (last.afterTake d rest).judge d frame = .rejected d frame cause (last.afterTake d rest) →
      EndsIn last past ⟨past ++ [.rejected d frame], last.afterTake d rest, .failed cause⟩
  | severed {d : Direction} : last.turn = .severed d → EndsIn last past
      ⟨past, last, .failed (.linkClosed last.exchange.cell d last.round.iteration)⟩
  | finished : last.turn = .finished → EndsIn last past ⟨past, last, .finished last.round.report⟩
  | idle : last.turn = .waiting ∨ last.turn = .stuck → EndsIn last past ⟨past, last, .waiting⟩

/-- A poll that waits has stopped at the session before its last turn. -/
theorem EndsIn.of_waiting {last : Session} {past : List Act} {p : Poll} (h : last.EndsIn past p)
    (hwaiting : p.verdict = .waiting) : p = ⟨past, last, .waiting⟩ := by
  cases h with
  | idle => rfl
  | _ => cases hwaiting

/-- The sessions from which a poll takes its turns, in order. -/
def turns (s : Session) : List Session :=
  match h : s.turn with
  | .acted _ next =>
    have := s.work_lt_of_turn h
    s :: next.turns
  | _ => [s]
termination_by s.work

theorem turns_of_acted {act : Act} (h : s.turn = .acted act next) : s.turns = s :: next.turns := by
  rw [turns]
  split <;> simp_all

theorem turns_of_last (h : ∀ act next, s.turn ≠ .acted act next) : s.turns = [s] := by
  rw [turns]
  split <;> simp_all

/-- Sessions at which turns are taken one after the other, each but the last with an act. The acts
begin with those before the first turn, and each session is as stated after those before it. -/
structure Course (motive : List Act → Session → Prop) (past : List Act) (turns : List Session)
    (acts : List Act) (last : Session) : Prop where
  getLast : turns.getLast? = some last
  length : acts.length + 1 = past.length + turns.length
  all : ∀ s ∈ turns, ∃ acts, motive acts s
  last : motive acts last

namespace Course

variable {motive : List Act → Session → Prop} {past acts more : List Act}
  {ss ss' : List Session} {last last' : Session}

/-- A single turn. -/
theorem single (h : motive past s) : Course motive past [s] past s :=
  ⟨rfl, rfl, List.forall_mem_singleton.2 ⟨past, h⟩, h⟩

/-- A turn that acts, and those after it. -/
theorem cons {act : Act} (h : motive past s) (hrest : Course motive (past ++ [act]) ss acts last) :
    Course motive past (s :: ss) acts last := by
  refine ⟨?_, ?_, List.forall_mem_cons.2 ⟨⟨past, h⟩, hrest.all⟩, hrest.last⟩
  · rw [List.getLast?_cons, hrest.getLast, Option.getD_some]
  · rw [hrest.length, List.length_append, List.length_singleton, List.length_cons]
    omega

/-- A turn that did nothing is taken up again. -/
theorem resume (h : Course motive past ss acts last) (hrest : Course motive acts ss' more last') :
    Course motive past (ss.dropLast ++ ss') more last' := by
  have hne : ss ≠ [] := by
    rintro rfl
    cases h.getLast
  have hpos := List.length_pos_iff.2 hne
  have hlength := h.length
  have hlength' := hrest.length
  refine ⟨?_, ?_, fun s hs => ?_, hrest.last⟩
  · rw [List.getLast?_append, hrest.getLast, Option.some_or]
  · rw [List.length_append, List.length_dropLast]
    omega
  · rcases List.mem_append.1 hs with hs | hs
    · exact h.all s ((List.dropLast_subset ss) hs)
    · exact hrest.all s hs

end Course

/-- **What every turn that acts keeps is true at every turn of a poll.** -/
theorem exists_course {motive : List Act → Session → Prop} (s : Session) (past : List Act)
    (start : motive past s)
    (step : ∀ {acts s act next}, motive acts s → s.turn = .acted act next →
      motive (acts ++ [act]) next) :
    ∃ acts last, Course motive past s.turns acts last ∧
      last.EndsIn acts { s.poll with acts := past ++ s.poll.acts } := by
  induction s using Session.poll.induct generalizing past with
  | case1 s act next hturn _ ih =>
    obtain ⟨acts, last, hcourse, hends⟩ := ih (past ++ [act]) (step start hturn)
    rw [turns_of_acted hturn]
    refine ⟨acts, last, hcourse.cons start, ?_⟩
    rw [List.append_assoc] at hends
    rw [poll_of_acted hturn]
    exact hends
  | case2 s d frame cause next hturn =>
    obtain ⟨rest, harrives, rfl, hjudge⟩ := rejected_of_turn hturn
    rw [turns_of_last (by simp [hturn])]
    refine ⟨past, s, .single start, ?_⟩
    rw [poll_of_rejected hturn]
    exact .rejected harrives hjudge
  | case3 s d hturn =>
    rw [turns_of_last (by simp [hturn])]
    refine ⟨past, s, .single start, ?_⟩
    rw [poll_of_severed hturn, List.append_nil]
    exact .severed hturn
  | case4 s hturn =>
    rw [turns_of_last (by simp [hturn])]
    refine ⟨past, s, .single start, ?_⟩
    rw [poll_of_finished hturn, List.append_nil]
    exact .finished hturn
  | case5 s hturn =>
    rw [turns_of_last (by simp [hturn])]
    refine ⟨past, s, .single start, ?_⟩
    rw [poll_of_waiting hturn, List.append_nil]
    exact .idle (.inl hturn)
  | case6 s hturn =>
    rw [turns_of_last (by simp [hturn])]
    refine ⟨past, s, .single start, ?_⟩
    rw [poll_of_stuck hturn, List.append_nil]
    exact .idle (.inr hturn)

/-- What every turn that acts keeps is true before the last turn. -/
theorem exists_last {motive : List Act → Session → Prop} (s : Session) (past : List Act)
    (start : motive past s)
    (step : ∀ {acts s act next}, motive acts s → s.turn = .acted act next →
      motive (acts ++ [act]) next) :
    ∃ acts last, motive acts last ∧
      last.EndsIn acts { s.poll with acts := past ++ s.poll.acts } :=
  let ⟨acts, last, hcourse, hends⟩ := s.exists_course past start step
  ⟨acts, last, hcourse.last, hends⟩

end Session
end DiffusionMesh

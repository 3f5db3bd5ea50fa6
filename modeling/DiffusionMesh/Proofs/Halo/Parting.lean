/-
# Ends that are given up

A neighbor that has given up its end of a link does not come back: it puts no frame more into the
link and does not take hold of the end again (`Ports.NoReturn`). A link that is closed and drained
is then so for good. A cell stops listening to a link when it finds it so, and need not look again:

```
  the cell sees the link closed ─────────► it listens no more
      │                                          │
  closed and drained  ──── no deed, no poll ───► closed and drained
```

Main statement: `Exchange.Parted.after`.
-/

import DiffusionMesh.Proofs.Halo.Endings
import DiffusionMesh.Proofs.Halo.Trial

namespace DiffusionMesh

/-- A link that takes a frame changes its queue alone. -/
theorem Link.eq_of_offer {l link : Link} {frame : Frame} (h : l.offer frame = .taken link) :
    link = { l with queue := link.queue } := by
  unfold offer at h
  split at h
  · split at h
    · cases h
      rfl
    · cases h
  · cases h

/-- A link that gives a frame changes its queue alone. -/
theorem Link.eq_of_arrival {l link : Link} {frame : Frame} (h : l.arrival = .frame frame link) :
    link = { l with queue := link.queue } := by
  unfold arrival at h
  split at h
  · cases h
    rfl
  · split at h <;> cases h

/-- The link toward the cell in a direction is closed and drained. -/
def Ports.Drained (p : Ports) (d : Direction) : Prop :=
  ∃ l, p.inbound.get d = some l ∧ l.queue = [] ∧ l.senderOpen = false

/-- Whether a deed puts a frame into the link toward the cell in a direction, or takes hold of its
sending end. -/
def Deed.supplies (d : Direction) : Deed → Bool
  | .put e _ => e == d
  | .holdSender e held => e == d && held
  | .take _ | .holdReceiver _ _ => false

/-- The deeds that happen in an event. -/
def Trial.Event.deeds : Trial.Event → List Deed
  | .deed a => [a]
  | .call c => c.visits.flatten

/-- A sending end that is given up, now or by one of some deeds to come, is given up for good. -/
structure Ports.NoReturn (p : Ports) (deeds : List Deed) : Prop where
  now : ∀ d l, p.inbound.get d = some l → l.senderOpen = false → ∀ a ∈ deeds, a.supplies d = false
  later : deeds.Pairwise fun a b => ∀ d, a = .holdSender d false → b.supplies d = false

/-- Every link that a cell no longer listens to is closed and drained, and stays so during some
deeds. -/
structure Exchange.Parted (x : Exchange) (p : Ports) (order : List Direction) (deeds : List Deed) :
    Prop where
  noReturn : p.NoReturn deeds
  drained : ∀ d ∈ order, x.listening.get d = false → p.Drained d

/-- Only a frame put or a hold taken or given up changes the link toward the cell. -/
theorem Trial.inbound_deed (t : Trial) (a : Deed) (d : Direction) :
    (t.deed a).ports.inbound.get d = t.ports.inbound.get d ∨ ∃ l, t.ports.inbound.get d = some l ∧
      ((∃ frame queue, a = .put d frame ∧
          (t.deed a).ports.inbound.get d = some { l with queue := queue }) ∨
        ∃ held, a = .holdSender d held ∧
          (t.deed a).ports.inbound.get d = some { l with senderOpen := held }) := by
  have hother : ∀ {e : Direction} {link : Link} {frames : List Frame}, d ≠ e →
      (t.arrive e link frames).ports.inbound.get d = t.ports.inbound.get d :=
    fun hne => Compass.get_set_of_ne _ hne _
  have hself : ∀ {link : Link} {frames : List Frame},
      (t.arrive d link frames).ports.inbound.get d = some link := Compass.get_set_self ..
  cases a with
  | take | holdReceiver =>
    rw [deed]
    repeat' split
    all_goals exact .inl rfl
  | put e frame =>
    rw [deed]
    split
    · next link h =>
      obtain ⟨l, hl, hoffer⟩ := Option.map_eq_some_iff.1 h
      by_cases hd : d = e
      · subst hd
        refine .inr ⟨l, hl, .inl ⟨frame, link.queue, rfl, hself.trans (congrArg some ?_)⟩⟩
        exact Link.eq_of_offer hoffer
      · exact .inl (hother hd)
    · exact .inl rfl
  | holdSender e held =>
    rw [deed]
    split
    · next l hl =>
      by_cases hd : d = e
      · subst hd
        exact .inr ⟨l, hl, .inr ⟨held, rfl, hself⟩⟩
      · exact .inl (hother hd)
    · exact .inl rfl

namespace Exchange.Parted

variable {x : Exchange} {p : Ports} {t : Trial} {s next : Session} {order : List Direction}
  {a : Deed} {deeds rest : List Deed} {act : Act} {d : Direction} {frame : Frame} {l link : Link}

/-! ### Deeds -/

/-- **Links that are closed stay closed** after a deed. -/
theorem deed (h : t.exchange.Parted t.ports order (a :: deeds)) :
    (t.deed a).exchange.Parted (t.deed a).ports order deeds := by
  obtain ⟨⟨hnow, hlater⟩, hdrained⟩ := h
  obtain ⟨hhead, hrest⟩ := List.pairwise_cons.1 hlater
  refine ⟨⟨fun d l hl hopen b hb => ?_, hrest⟩, fun d hd hclosed => ?_⟩
  · rcases t.inbound_deed a d with hsame | ⟨l', hl', ⟨frame, queue, -, hqueue⟩ | ⟨held, rfl, hheld⟩⟩
    · exact hnow d l (hsame.symm.trans hl) hopen b (List.mem_cons_of_mem _ hb)
    · obtain rfl := Option.some.inj (hqueue.symm.trans hl)
      exact hnow d l' hl' hopen b (List.mem_cons_of_mem _ hb)
    · -- this deed gives the end up, so no later one may supply it
      obtain rfl := Option.some.inj (hheld.symm.trans hl)
      obtain rfl : held = false := hopen
      exact hhead b hb d rfl
  · have hexchange : (t.deed a).exchange = t.exchange := (t.deeds_keep [a]).2.1
    obtain ⟨l, hl, hqueue, hopen⟩ := hdrained d hd (hexchange ▸ hclosed)
    have ha := hnow d l hl hopen a List.mem_cons_self
    rcases t.inbound_deed a d with hsame | ⟨l', hl', ⟨frame, queue, rfl, -⟩ | ⟨held, rfl, hheld⟩⟩
    · exact ⟨l, hsame.trans hl, hqueue, hopen⟩
    · simp [Deed.supplies] at ha
    · obtain rfl := Option.some.inj (hl.symm.trans hl')
      refine ⟨_, hheld, hqueue, ?_⟩
      simpa [Deed.supplies] using ha

/-- Links that are closed stay closed during some deeds. -/
theorem foldl_deed (h : t.exchange.Parted t.ports order (deeds ++ rest)) :
    (deeds.foldl Trial.deed t).exchange.Parted (deeds.foldl Trial.deed t).ports order rest := by
  induction deeds generalizing t with
  | nil => exact h
  | cons a deeds ih => exact ih h.deed

/-- Deeds that do not happen after all do no harm. -/
theorem drop (h : x.Parted p order (deeds ++ rest)) : x.Parted p order rest where
  noReturn := {
    now := fun d l hl hopen a ha => h.noReturn.now d l hl hopen a (List.mem_append_right _ ha)
    later := (List.pairwise_append.1 h.noReturn.later).2.1 }
  drained := h.drained

/-! ### Polls -/

/-- Taking a frame closes no link. -/
theorem afterTake (h : s.exchange.Parted s.ports order deeds) (harrives : s.Arrives d frame link) :
    (s.afterTake d link).exchange.Parted (s.afterTake d link).ports order deeds := by
  obtain ⟨l, hl, harrival⟩ := harrives.link
  have hsame := Link.eq_of_arrival harrival
  refine ⟨⟨fun e l' hl' hopen => ?_, h.noReturn.later⟩, fun e he hclosed => ?_⟩
  · change (s.ports.inbound.set d (some link)).get e = some l' at hl'
    rw [Compass.get_set] at hl'
    split at hl'
    · next hed =>
      obtain rfl := Option.some.inj hl'
      rw [hsame] at hopen
      exact h.noReturn.now e l (hed ▸ hl) hopen
    · exact h.noReturn.now e l' hl' hopen
  · have hed : e ≠ d := by
      rintro rfl
      cases hclosed.symm.trans harrives.listening
    obtain ⟨l', hl', hdone⟩ := h.drained e he hclosed
    exact ⟨l', (Compass.get_set_of_ne _ hed _).trans hl', hdone⟩

/-- **A cell gives up listening to closed links only**, turn by turn. -/
theorem step (h : s.exchange.Parted s.ports order deeds) (hturn : s.turn = .acted act next) :
    next.exchange.Parted next.ports order deeds := by
  have hstep : s.Step act next := .of_turn (by rw [hturn]; rfl)
  cases hstep with
  | sent => exact ⟨⟨h.noReturn.now, h.noReturn.later⟩, h.drained⟩
  | applied harrives | parked harrives | rejected harrives =>
    exact ⟨(h.afterTake harrives).noReturn, (h.afterTake harrives).drained⟩
  | @hungUp d =>
    obtain ⟨l, hl, hqueue, hopen, -⟩ := Session.hungUp_of_turn hturn
    refine ⟨h.noReturn, fun e he hclosed => ?_⟩
    change (s.exchange.listening.set d false).get e = false at hclosed
    by_cases hed : e = d
    · exact ⟨l, hed ▸ hl, hqueue, hopen⟩
    · rw [Compass.get_set_of_ne _ hed] at hclosed
      exact h.drained e he hclosed

/-- A cell gives up listening to closed links only, poll by poll. -/
theorem poll (h : s.exchange.Parted s.ports order deeds) :
    s.poll.session.exchange.Parted s.poll.session.ports order deeds := by
  obtain ⟨past, last, hlast, hends⟩ := Session.exists_last
    (motive := fun _ s => s.exchange.Parted s.ports order deeds) s [] h
    fun hs hturn => hs.step hturn
  generalize hp : ({ s.poll with acts := [] ++ s.poll.acts } : Poll) = p at hends
  have hsession : s.poll.session = p.session := congrArg Poll.session hp
  rw [hsession]
  cases hends with
  | rejected harrives => exact hlast.afterTake harrives
  | severed | finished | idle => exact hlast

/-! ### Trials -/

/-- **A cell gives up listening to closed links only** while a round goes on. -/
theorem run (r : Round) (incoming : Compass Edge) (visits : List (List Deed))
    (h : t.exchange.Parted t.ports order (visits.flatten ++ rest)) :
    (t.run r incoming visits).trial.exchange.Parted (t.run r incoming visits).trial.ports order
      rest := by
  induction visits generalizing t r incoming with
  | nil => exact poll (s := t.session r incoming) h
  | cons deeds visits ih =>
    rw [List.flatten_cons, List.append_assoc] at h
    have hpoll := poll (s := t.session r incoming) h
    rw [Trial.run]
    split
    · exact ih _ _ (foldl_deed (t := t.took (t.session r incoming).poll) hpoll)
    · exact hpoll.drop.drop

/-- A cell gives up listening to closed links only in a call. -/
theorem call (c : Call) (h : t.exchange.Parted t.ports order (c.visits.flatten ++ rest)) :
    (t.call c).trial.exchange.Parted (t.call c).trial.ports order rest :=
  run (t := { t with
    exchange := (t.exchange.start c.iteration c.outgoing c.incoming).1
    log := t.log ++ (t.exchange.start c.iteration c.outgoing c.incoming).2.2.2 }) _ _ _
    ⟨h.noReturn, h.drained⟩

/-- **Whatever happens in a trial**, a link that the cell no longer listens to is closed and
drained, unless a neighbor comes back to an end that it has given up. -/
theorem after (events : List Trial.Event)
    (h : t.exchange.Parted t.ports order (events.flatMap Trial.Event.deeds ++ rest)) :
    (t.after events).exchange.Parted (t.after events).ports order rest := by
  induction events generalizing t with
  | nil => exact h
  | cons e events ih =>
    rw [List.flatMap_cons, List.append_assoc] at h
    refine ih ?_
    cases e with
    | deed a => exact h.deed
    | call c => exact h.call c

end Exchange.Parted
end DiffusionMesh

/-
# Concord: a whole network that keeps to a plan

A crew gives the station of each cell that is still there. It is in concord with a plan when each
station is sound and each link carries exactly the frames that its sender has sent and its
receiver has not taken:

```
   cell i ── link, frames taken … sent - 1 ──▶ cell j
   sentOn d                                takenOn d.opposite
```

A cell that has left counts as having sent and taken everything. One cell at a time begins a
round, is polled, ends a round or leaves; each keeps the concord (`Concord.begun`,
`Concord.polled`, `Concord.leave`). In concord, neighbors differ by one iteration at most
(`Concord.completed_le`).
-/

import DiffusionMesh.Proofs.Mesh.Links
import DiffusionMesh.Proofs.Mesh.Session
import Mathlib.Logic.Function.Basic

namespace DiffusionMesh

/-- The ends of cells that are joined as `mate` says: each direction with a mate has a link of its
own, which the mate receives on in the opposite direction. -/
structure Wired (mate : Nat → Direction → Option Nat) (ends : Nat → Ends) : Prop where
  outbound : ∀ {i d j}, mate i d = some j → ∃ n, (ends i).outbound.get d = some n
  inbound : ∀ {i d j}, mate i d = some j →
    (ends i).inbound.get d = (ends j).outbound.get d.opposite
  alone : ∀ {i d}, mate i d = none →
    (ends i).outbound.get d = none ∧ (ends i).inbound.get d = none
  injective : ∀ {i d k e n}, (ends i).outbound.get d = some n →
    (ends k).outbound.get e = some n → i = k ∧ d = e

/-- The stations of the cells that have not left. -/
abbrev Crew := Nat → Option Station

namespace Crew

/-- The number of edges that a cell has sent in a direction; all of them once it has left. -/
def sent (crew : Crew) (P : Plan) (i : Nat) (d : Direction) : Nat :=
  (crew i).elim P.rounds (·.sentOn d)

/-- The number of frames that a cell has taken from a direction; all of them once it has left. -/
def taken (crew : Crew) (P : Plan) (i : Nat) (d : Direction) : Nat :=
  (crew i).elim P.rounds (·.takenOn d)

/-- The number of iterations that a cell has completed. -/
def completed (crew : Crew) (P : Plan) (i : Nat) : Nat :=
  (crew i).elim P.rounds (·.completed)

/-- What the cells around a cell have done. -/
def vicinity (crew : Crew) (P : Plan) (i : Nat) : Vicinity where
  sent d := (P.mate i d).elim 0 fun j => crew.sent P j d.opposite
  taken d := (P.mate i d).elim 0 fun j => crew.taken P j d.opposite
  gone d := (P.mate i d).elim false fun j => (crew j).isNone

variable {crew : Crew} {P : Plan} {i j : Nat} {d : Direction}

theorem sent_vicinity (h : P.mate i d = some j) :
    (crew.vicinity P i).sent d = crew.sent P j d.opposite := by
  simp only [vicinity, h, Option.elim_some]

theorem taken_vicinity (h : P.mate i d = some j) :
    (crew.vicinity P i).taken d = crew.taken P j d.opposite := by
  simp only [vicinity, h, Option.elim_some]

theorem gone_vicinity (h : P.mate i d = some j) :
    (crew.vicinity P i).gone d = (crew j).isNone := by
  simp only [vicinity, h, Option.elim_some]

end Crew

/-- A crew and its links are as the plan has them. -/
structure Concord (P : Plan) (ends : Nat → Ends) (f : Fabric) (crew : Crew) : Prop where
  wired : Wired P.mate ends
  station : ∀ {i x}, crew i = some x → x.peer.ends = ends i ∧ x.Sound P i
  link : ∀ {i d j}, P.mate i d = some j → ∃ n l, (ends i).outbound.get d = some n ∧
    f.links[n]? = some l ∧
    l.Carries P i d (crew.taken P j d.opposite) (crew.sent P i d) (crew i).isSome (crew j).isSome
  unheard : ∀ {i x d j}, crew i = some x → P.mate i d = some j →
    x.peer.exchange.listening.get d = false → crew j = none ∧ x.takenOn d = P.rounds

namespace Concord

variable {P : Plan} {ends : Nat → Ends} {f : Fabric} {crew : Crew} {i : Nat} {x : Station}

theorem sent_le_rounds (h : Concord P ends f crew) (i : Nat) (d : Direction) :
    crew.sent P i d ≤ P.rounds := by
  unfold Crew.sent
  cases hi : crew i with
  | none => exact Nat.le_refl _
  | some x => exact (h.station hi).2.sentOn_le_rounds d

theorem completed_le_taken (crew : Crew) (P : Plan) (i : Nat) (d : Direction) :
    crew.completed P i ≤ crew.taken P i d := by
  unfold Crew.completed Crew.taken
  cases crew i with
  | none => exact Nat.le_refl _
  | some x => exact Nat.le_trans (x.completed_le_appliedOn d) (x.appliedOn_le_takenOn d)

theorem completed_le_sent (crew : Crew) (P : Plan) (i : Nat) (d : Direction) :
    crew.completed P i ≤ crew.sent P i d := by
  unfold Crew.completed Crew.sent
  cases crew i with
  | none => exact Nat.le_refl _
  | some x => exact x.completed_le_sentOn d

theorem sent_le_completed (crew : Crew) (P : Plan) (i : Nat) (d : Direction) :
    crew.sent P i d ≤ crew.completed P i + 1 := by
  unfold Crew.completed Crew.sent
  cases crew i with
  | none => exact Nat.le_succ _
  | some x => exact x.sentOn_le d

/-- No more frames are taken than have been sent. -/
theorem taken_le_sent (h : Concord P ends f crew) {d : Direction} {j : Nat}
    (hj : P.mate i d = some j) : crew.taken P j d.opposite ≤ crew.sent P i d := by
  obtain ⟨n, l, -, -, hcarries⟩ := h.link hj
  exact hcarries.le

/-- **A cell is at most one iteration ahead of its neighbors.** -/
theorem completed_le (h : Concord P ends f crew) {d : Direction} {j : Nat}
    (hj : P.mate i d = some j) : crew.completed P i ≤ crew.completed P j + 1 := by
  have htaken := h.taken_le_sent (P.mate_symm hj)
  rw [Direction.opposite_opposite] at htaken
  exact Nat.le_trans (completed_le_taken crew P i d)
    (Nat.le_trans htaken (sent_le_completed crew P j d.opposite))

/-! ### What one cell relies on -/

theorem reliable (h : Concord P ends f crew) (i : Nat) (d : Direction) (j : Nat)
    (hj : P.mate i d = some j) : (crew.vicinity P i).Reliable P d := by
  refine ⟨?_, ?_, fun hgone => ?_⟩
  · rw [Crew.sent_vicinity hj]
    exact h.sent_le_rounds j d.opposite
  · rw [Crew.sent_vicinity hj, Crew.taken_vicinity hj]
    exact Nat.le_trans (sent_le_completed crew P j d.opposite)
      (Nat.succ_le_succ (completed_le_taken crew P j d.opposite))
  · rw [Crew.gone_vicinity hj, Option.isNone_iff_eq_none] at hgone
    rw [Crew.sent_vicinity hj, Crew.taken_vicinity hj, Crew.sent, Crew.taken, hgone]
    exact ⟨rfl, rfl⟩

theorem linked (h : Concord P ends f crew) (hi : crew i = some x) (d : Direction) (j : Nat)
    (hj : P.mate i d = some j) :
    x.Linked P i (crew.vicinity P i) (f.ports (ends i)) d j := by
  have hgone : (!(crew.vicinity P i).gone d) = (crew j).isSome := by
    rw [Crew.gone_vicinity hj, Option.not_isNone]
  have hsent : crew.sent P i d = x.sentOn d := by rw [Crew.sent, hi, Option.elim_some]
  have htaken : crew.taken P i d = x.takenOn d := by rw [Crew.taken, hi, Option.elim_some]
  refine ⟨?_, ?_, fun hclosed => ?_⟩
  · obtain ⟨n, l, hn, hl, hcarries⟩ := h.link hj
    refine ⟨l, ?_, ?_⟩
    · rw [Fabric.ports, Compass.get_map, hn]
      exact hl
    · rw [hgone, Crew.taken_vicinity hj, ← hsent]
      rwa [hi] at hcarries
  · obtain ⟨n, l, hn, hl, hcarries⟩ := h.link (P.mate_symm hj)
    refine ⟨l, ?_, ?_⟩
    · rw [Fabric.ports, Compass.get_map, h.wired.inbound hj, hn]
      exact hl
    · rw [hgone, Crew.sent_vicinity hj, ← htaken]
      rwa [hi, Direction.opposite_opposite] at hcarries
  · obtain ⟨hnone, htaken⟩ := h.unheard hi hj hclosed
    rw [Crew.gone_vicinity hj, Crew.sent_vicinity hj, htaken, Crew.sent, hnone]
    exact ⟨rfl, rfl⟩

/-- **A cell in concord has a sound session.** -/
theorem session (h : Concord P ends f crew) (hi : crew i = some x) {r : Round}
    (hr : x.peer.round = some r) (stats : Stats) :
    Session.Sound P i (crew.vicinity P i) (ends i) x.completed
      ⟨x.peer.exchange, r, x.incoming, f.ports (ends i), stats⟩ := by
  obtain ⟨hends, hsound⟩ := h.station hi
  have hx : Session.station ⟨x.peer.exchange, r, x.incoming, f.ports (ends i), stats⟩ (ends i)
      x.completed = x := by
    rw [Session.station, ← hends, ← hr]
  refine ⟨?_, h.reliable i, ?_⟩
  · rw [hx]
    exact hsound
  · rw [hx]
    exact h.linked hi

/-! ### What one cell changes -/

/-- A cell receives on the links of its mates alone. -/
theorem mate_of_inbound (h : Concord P ends f crew) {a : Nat} {e d : Direction} {n : Nat}
    (hn : (ends a).outbound.get e = some n) (hd : (ends i).inbound.get d = some n) :
    P.mate i d = some a ∧ e = d.opposite := by
  cases hj : P.mate i d with
  | none =>
    rw [(h.wired.alone hj).2] at hd
    cases hd
  | some j =>
    rw [h.wired.inbound hj] at hd
    obtain ⟨rfl, rfl⟩ := h.wired.injective hd hn
    exact ⟨rfl, rfl⟩

/-- **One cell changes the links at it alone.** Those that lead away from it and those that lead to
it have to stand as its new station says; without a station it counts as having sent and taken
all. -/
theorem update (h : Concord P ends f crew) (hi : crew i = some x) {v : Option Station} {f' : Fabric}
    (hstation : ∀ {y}, v = some y → y.peer.ends = ends i ∧ y.Sound P i)
    (hout : ∀ {d j n l}, P.mate i d = some j → (ends i).outbound.get d = some n →
      f.links[n]? = some l →
      l.Carries P i d (crew.taken P j d.opposite) (x.sentOn d) true (crew j).isSome →
      ∃ l', f'.links[n]? = some l' ∧ l'.Carries P i d (crew.taken P j d.opposite)
        (v.elim P.rounds (·.sentOn d)) v.isSome (crew j).isSome)
    (hin : ∀ {d j n l}, P.mate i d = some j → (ends i).inbound.get d = some n →
      f.links[n]? = some l →
      l.Carries P j d.opposite (x.takenOn d) (crew.sent P j d.opposite) (crew j).isSome true →
      ∃ l', f'.links[n]? = some l' ∧ l'.Carries P j d.opposite
        (v.elim P.rounds (·.takenOn d)) (crew.sent P j d.opposite) (crew j).isSome v.isSome)
    (hrest : ∀ {n l}, (∀ d, (ends i).outbound.get d ≠ some n) →
      (∀ d, (ends i).inbound.get d ≠ some n) → f.links[n]? = some l → f'.links[n]? = some l)
    (hunheard : ∀ {y d j}, v = some y → P.mate i d = some j →
      y.peer.exchange.listening.get d = false → crew j = none ∧ y.takenOn d = P.rounds) :
    Concord P ends f' (Function.update crew i v) := by
  have hself : Function.update crew i v i = v := Function.update_self ..
  have hother : ∀ {j}, j ≠ i → Function.update crew i v j = crew j := fun hj =>
    Function.update_of_ne hj ..
  refine ⟨h.wired, fun {k y} hk => ?_, fun {a e b} hb => ?_, fun {k y d j} hk hj hclosed => ?_⟩
  · by_cases hki : k = i
    · subst hki
      exact hstation (hself.symm.trans hk)
    · rw [hother hki] at hk
      exact h.station hk
  · obtain ⟨n, l, hn, hl, hcarries⟩ := h.link hb
    by_cases hai : a = i
    · -- the link leads away from the cell
      subst hai
      rw [hi, Option.isSome_some, Crew.sent, hi, Option.elim_some] at hcarries
      obtain ⟨l', hl', hcarries'⟩ := hout hb hn hl hcarries
      refine ⟨n, l', hn, hl', ?_⟩
      rw [Crew.sent, hself, Crew.taken, hother (P.mate_ne hb)]
      exact hcarries'
    · by_cases hbi : b = i
      · -- the link leads to the cell
        subst hbi
        have ha := P.mate_symm hb
        have hin' : (ends b).inbound.get e.opposite = some n := by
          rw [h.wired.inbound ha, Direction.opposite_opposite, hn]
        rw [hi, Option.isSome_some, Crew.taken, hi, Option.elim_some] at hcarries
        obtain ⟨l', hl', hcarries'⟩ := hin ha hin' hl (by rwa [Direction.opposite_opposite])
        refine ⟨n, l', hn, hl', ?_⟩
        rw [Direction.opposite_opposite] at hcarries'
        rw [Crew.sent, hother hai, Crew.taken, hself]
        exact hcarries'
      · -- the link is between other cells
        refine ⟨n, l, hn, hrest (fun d hd => ?_) (fun d hd => ?_) hl, ?_⟩
        · exact hai (h.wired.injective hd hn).1.symm
        · obtain ⟨ha, rfl⟩ := h.mate_of_inbound hn hd
          exact hbi (Option.some.inj (hb.symm.trans (P.mate_symm ha)))
        · rw [Crew.sent, hother hai, Crew.taken, hother hbi]
          exact hcarries
  · by_cases hki : k = i
    · subst hki
      rw [hother (P.mate_ne hj)]
      exact hunheard (hself.symm.trans hk) hj hclosed
    · rw [hother hki] at hk
      obtain ⟨hnone, htaken⟩ := h.unheard hk hj hclosed
      have hji : j ≠ i := by
        rintro rfl
        rw [hnone] at hi
        cases hi
      rw [hother hji]
      exact ⟨hnone, htaken⟩

/-- A link leads to one cell from another. -/
theorem inbound_ne_of_outbound (h : Concord P ends f crew) {d : Direction} {n : Nat}
    (hn : (ends i).outbound.get d = some n) (e : Direction) : (ends i).inbound.get e ≠ some n :=
  fun he => P.mate_ne (h.mate_of_inbound hn he).1 rfl

/-- **A station may be replaced by one that is as its links are.** -/
theorem replace (h : Concord P ends f crew) (hi : crew i = some x) {x' : Station} {p : Ports}
    {stats : Stats} (hends : x'.peer.ends = ends i) (hsound : x'.Sound P i)
    (hlinked : ∀ d j, P.mate i d = some j → x'.Linked P i (crew.vicinity P i) p d j) :
    Concord P ends { f.store (ends i) p with stats := stats }
      (Function.update crew i (some x')) := by
  refine h.update hi (fun hy => ?_) (fun {d j n l} hj hn hl _ => ?_)
    (fun {d j n l} hj hn hl _ => ?_) (fun hout hin hl => ?_) (fun {y d j} hy hj hclosed => ?_)
  · obtain rfl := Option.some.inj hy
    exact ⟨hends, hsound⟩
  · obtain ⟨l', hl', hcarries'⟩ := (hlinked d j hj).outbound
    refine ⟨l', ?_, ?_⟩
    · refine Fabric.getElem?_store (fun e he => ?_) (fun e he => ?_)
        (.inr ⟨(Array.getElem?_eq_some_iff.1 hl).1, d, .inl hn⟩)
      · rw [(h.wired.injective he hn).2]
        exact hl'
      · exact absurd he (h.inbound_ne_of_outbound hn e)
    · rw [Crew.taken_vicinity hj, Crew.gone_vicinity hj, Option.not_isNone] at hcarries'
      exact hcarries'
  · obtain ⟨l', hl', hcarries'⟩ := (hlinked d j hj).inbound
    have hout := h.wired.inbound hj
    rw [hn] at hout
    refine ⟨l', ?_, ?_⟩
    · refine Fabric.getElem?_store (fun e he => ?_) (fun e he => ?_)
        (.inr ⟨(Array.getElem?_eq_some_iff.1 hl).1, d, .inr hn⟩)
      · exact absurd hn (h.inbound_ne_of_outbound he d)
      · have hde := congrArg Direction.opposite (h.mate_of_inbound hout.symm he).2
        rw [Direction.opposite_opposite, Direction.opposite_opposite] at hde
        rw [← hde]
        exact hl'
    · rw [Crew.sent_vicinity hj, Crew.gone_vicinity hj, Option.not_isNone] at hcarries'
      exact hcarries'
  · exact Fabric.getElem?_store (fun e he => absurd he (hout e)) (fun e he => absurd he (hin e))
      (.inl hl)
  · obtain rfl := Option.some.inj hy
    obtain ⟨hgone, htaken⟩ := (hlinked d j hj).unheard hclosed
    rw [Crew.gone_vicinity hj, Option.isNone_iff_eq_none] at hgone
    rw [Crew.sent_vicinity hj, Crew.sent, hgone] at htaken
    exact ⟨hgone, htaken⟩

/-- **Beginning a round keeps the concord.** -/
theorem begun (h : Concord P ends f crew) (hi : crew i = some x) (hidle : x.peer.round = none)
    (hlt : x.completed < P.rounds) :
    Concord P ends f (Function.update crew i (some (x.begunBy P i))) := by
  obtain ⟨hends, hsound⟩ := h.station hi
  have hreplace : Concord P ends { f.store (ends i) (f.ports (ends i)) with stats := f.stats }
      (Function.update crew i (some (x.begunBy P i))) :=
    h.replace hi hends (hsound.begunBy hidle hlt) fun d j hj => (h.linked hi d j hj).congr
      (Station.Sound.sentOn_begunBy hidle d) (hsound.takenOn_begunBy hidle (by rw [hj]; rfl)) rfl
  rwa [Fabric.store_ports] at hreplace

/-- What a poll of a cell in the midst of a round comes to: it waits for something, or the round
is over. Either way it has completed `n` iterations now. -/
structure Outcome (P : Plan) (ends : Nat → Ends) (f : Fabric) (crew : Crew) (i : Nat)
    (x : Station) (p : Peer.Polled) (n : Nat) : Prop where
  concord : Concord P ends p.fabric (Function.update crew i (some ⟨p.peer, p.incoming, n⟩))
  toCome : (⟨p.peer, p.incoming, n⟩ : Station).toCome P.rounds + p.acts.countP Act.moves =
    x.toCome P.rounds
  counted : p.fabric.stats.sent + p.fabric.stats.received =
    f.stats.sent + f.stats.received + p.acts.countP Act.moves
  verdict : (p.verdict = .waiting ∧ n = x.completed ∧ ∃ r, p.peer.round = some r ∧
      ¬ (p.peer.exchange.unsent = 0 ∧ r.receives = 0)) ∨
    ((∃ report, p.verdict = .finished report) ∧ n = x.completed + 1 ∧ p.peer.round = none)

/-- **Polling a cell keeps the concord.** -/
theorem polled (h : Concord P ends f crew) (hi : crew i = some x) {r : Round}
    (hr : x.peer.round = some r) : ∃ n, Outcome P ends f crew i x (x.peer.poll x.incoming f) n := by
  have hends := (h.station hi).1
  have hx : Session.station ⟨x.peer.exchange, r, x.incoming, f.ports (ends i), f.stats⟩ (ends i)
      x.completed = x := by
    rw [Session.station, ← hends, ← hr]
  have hpolled := (h.session hi hr f.stats).poll
  have htoCome := hpolled.advanced.toCome
  have hcounted := hpolled.advanced.counted
  have hsound := hpolled.sound
  rw [hx] at htoCome
  simp only [Peer.poll, hr, hends]
  generalize Session.poll ⟨x.peer.exchange, r, x.incoming, f.ports (ends i), f.stats⟩ = p at *
  rcases hpolled.verdict with ⟨⟨report, hverdict⟩, hsent, hcome⟩ | ⟨hverdict, -, -, hleft⟩
  · refine ⟨x.completed + 1, ?_, ?_, hcounted, .inr ⟨⟨report, hverdict⟩, rfl, ?_⟩⟩
    · rw [hverdict]
      exact h.replace hi rfl (hsound.station.ended rfl hsent hcome) fun d j hj =>
        (hsound.linked d j hj).congr
          (hsound.station.sentOn_ended rfl hsent (by rw [hj]; rfl))
          (hsound.station.takenOn_ended rfl hcome d) rfl
    · rw [hverdict, ← htoCome, ← hsound.station.toCome_ended rfl hsent hcome]
      rfl
    · rw [hverdict]
  · refine ⟨x.completed, ?_, ?_, hcounted, .inl ⟨hverdict, rfl, p.session.round, ?_, hleft⟩⟩
    · rw [hverdict]
      exact h.replace hi rfl hsound.station hsound.linked
    · rw [hverdict]
      exact htoCome
    · rw [hverdict]

/-- A station between rounds is polled after it has begun the next one. -/
theorem polled_begunBy (h : Concord P ends f crew) (hi : crew i = some x)
    (hidle : x.peer.round = none) (hlt : x.completed < P.rounds) :
    ∃ n, Outcome P ends f crew i x
      ((x.begunBy P i).peer.poll (x.begunBy P i).incoming f) n := by
  obtain ⟨n, hconcord, htoCome, hcounted, hverdict⟩ :=
    (h.begun hi hidle hlt).polled (Function.update_self ..) rfl
  rw [Function.update_idem] at hconcord
  rw [(h.station hi).2.toCome_begunBy hidle] at htoCome
  exact ⟨n, hconcord, htoCome, hcounted, hverdict⟩

/-! ### Leaving -/

/-- A cell that has completed its iterations has taken all edges sent to it, and its neighbors have
sent all of theirs. -/
theorem taken_of_done (h : Concord P ends f crew) (hi : crew i = some x)
    (hidle : x.peer.round = none) (hdone : x.completed = P.rounds) {d : Direction} {j : Nat}
    (hj : P.mate i d = some j) : x.takenOn d = P.rounds ∧ crew.sent P j d.opposite = P.rounds := by
  have htaken := h.taken_le_sent (P.mate_symm hj)
  rw [Direction.opposite_opposite, Crew.taken, hi, Option.elim_some] at htaken
  have hsent := h.sent_le_rounds j d.opposite
  have happlied := Station.appliedOn_of_idle hidle d
  have hle := x.appliedOn_le_takenOn d
  constructor <;> omega

/-- Nothing is left in the slots of a cell that has completed its iterations. -/
theorem slots_of_done (h : Concord P ends f crew) (hi : crew i = some x)
    (hidle : x.peer.round = none) (hdone : x.completed = P.rounds) (d : Direction) :
    x.peer.exchange.lookahead.get d = none := by
  cases hm : x.peer.exchange.lookahead.get d with
  | none => rfl
  | some m =>
    obtain ⟨j, hj, -⟩ := (h.station hi).2.kept d m hm
    have htaken := (h.taken_of_done hi hidle hdone hj).1
    rw [Station.takenOn, Station.appliedOn_of_idle hidle, hdone, hm] at htaken
    exact absurd htaken (Nat.succ_ne_self _)

/-- Nothing is left on a link whose receiver has taken all edges. -/
theorem inbound_of_taken (h : Concord P ends f crew) {d : Direction} {n : Nat}
    (htaken : (P.mate i d).isSome = true → crew.taken P i d = P.rounds)
    (hn : (ends i).inbound.get d = some n) : ∃ l, f.links[n]? = some l ∧ l.queue = [] := by
  cases hj : P.mate i d with
  | none =>
    rw [(h.wired.alone hj).2] at hn
    cases hn
  | some j =>
    obtain ⟨n', l, hn', hl, hcarries⟩ := h.link (P.mate_symm hj)
    rw [h.wired.inbound hj, hn'] at hn
    obtain rfl := Option.some.inj hn
    have hsent := h.sent_le_rounds j d.opposite
    have hle := hcarries.le
    rw [Direction.opposite_opposite, htaken (by rw [hj]; rfl)] at hle hcarries
    exact ⟨l, hl, by rw [hcarries.queue, Nat.le_antisymm hsent hle, P.frames_self]⟩

/-- **A cell that has completed its iterations may leave.** Its slots and the links toward it are
empty, so nothing is lost with its ends. -/
theorem leave (h : Concord P ends f crew) (hi : crew i = some x) (hidle : x.peer.round = none)
    (hdone : x.completed = P.rounds) :
    Concord P ends (f.release (ends i)) (Function.update crew i none) := by
  refine h.update hi nofun (fun {d j n l} hj hn hl hcarries => ?_)
    (fun {d j n l} hj hn hl hcarries => ?_) Fabric.getElem?_release_of_ne nofun
  · refine ⟨l.closeSender, Fabric.getElem?_release_outbound (h.inbound_ne_of_outbound hn) hn hl, ?_⟩
    rw [Station.sentOn_of_idle hidle, hdone] at hcarries
    exact hcarries.closeSender
  · obtain ⟨htaken, hsent⟩ := h.taken_of_done hi hidle hdone hj
    refine ⟨l.closeReceiver, Fabric.getElem?_release_inbound (fun e he => ?_) hn hl, ?_⟩
    · exact h.inbound_ne_of_outbound he d hn
    · rw [htaken, hsent] at hcarries
      rw [hsent]
      exact hcarries.closeReceiver

end Concord
end DiffusionMesh

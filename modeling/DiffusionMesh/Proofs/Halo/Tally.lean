/-
# Which frame an edge comes from

The frames that come out of a link are numbered in order, from 0. The acts of a cell tell, for each
direction, the number of the frame to come out next, the number of the frame whose edge is in the
slot, and the numbers of those whose edges have been put to use:

| act | `next` | `slot` | `used` |
| --- | --- | --- | --- |
| applied | one more | | and `next` |
| parked | one more | `next` | |
| rejected | one more | | |
| promoted | | none | and what was in the slot |

Whatever the acts, no number is used twice (`Tally.proper_read`). An exchange is `Accounted` for when
each of its slots holds the edge of the frame with the number in the tally, and no edge has been put
to use without a number; starting a round and polling keep it so (`Accounted.start`,
`Accounted.poll`).
-/

import DiffusionMesh.Proofs.Halo.Ledger
import Mathlib.Data.List.Induction
import Mathlib.Data.List.Nodup

namespace DiffusionMesh

/-- The frames that acts have taken from the link of a direction, in order. -/
def framesTaken (d : Direction) (log : List Act) : List Frame := log.flatMap (Act.takenOn d)

theorem framesTaken_append (d : Direction) (log acts : List Act) :
    framesTaken d (log ++ acts) = framesTaken d log ++ framesTaken d acts := List.flatMap_append

/-- A frame that has been taken keeps its number. -/
theorem getElem?_framesTaken {d : Direction} {log : List Act} {i : Nat} {frame : Frame}
    (h : (framesTaken d log)[i]? = some frame) (acts : List Act) :
    (framesTaken d (log ++ acts))[i]? = some frame := by
  rw [framesTaken_append, List.getElem?_append_left (List.getElem?_eq_some_iff.1 h).1, h]

/-- Whether an act puts an edge from a direction to use. -/
def Act.uses (d : Direction) : Act → Bool
  | .applied e _ | .promoted e => e == d
  | _ => false

/-- For one direction: the number of the next frame, of the one in the slot, and of those put to
use. -/
structure Tally where
  next : Nat
  slot : Option Nat
  used : List Nat

namespace Tally

/-- The edge in the slot is put to use. -/
def promote (t : Tally) : Tally := { t with slot := none, used := t.used ++ t.slot.toList }

/-- The tally of a direction after one more act. -/
def note (d : Direction) (t : Tally) : Act → Tally
  | .applied e _ => if e = d then { t with next := t.next + 1, used := t.used ++ [t.next] } else t
  | .parked e _ => if e = d then { t with next := t.next + 1, slot := some t.next } else t
  | .rejected e _ => if e = d then { t with next := t.next + 1 } else t
  | .promoted e => if e = d then t.promote else t
  | .sent _ _ | .hungUp _ => t

/-- The tally of a direction that acts amount to. -/
def read (d : Direction) (log : List Act) : Tally := log.foldl (note d) ⟨0, none, []⟩

variable {d : Direction} {log acts : List Act} {act : Act}

theorem read_concat (d : Direction) (log : List Act) (act : Act) :
    read d (log ++ [act]) = note d (read d log) act := by
  rw [read, List.foldl_append]
  rfl

/-- The next number is the number of frames taken. -/
theorem next_read (d : Direction) (log : List Act) :
    (read d log).next = (framesTaken d log).length := by
  induction log using List.reverseRecOn with
  | nil => rfl
  | append_singleton log act ih =>
    rw [read_concat, framesTaken_append, List.length_append, ← ih]
    cases act with
    | applied e frame => by_cases he : e = d <;> simp [note, framesTaken, Act.takenOn, he]
    | parked e frame => by_cases he : e = d <;> simp [note, framesTaken, Act.takenOn, he]
    | rejected e frame => by_cases he : e = d <;> simp [note, framesTaken, Act.takenOn, he]
    | promoted e => by_cases he : e = d <;> simp [note, framesTaken, Act.takenOn, promote, he]
    | sent e frame => rfl
    | hungUp e => rfl

/-- The frame that an act takes from the link has the next number. -/
theorem getElem?_next {frame : Frame} (h : act.takenOn d = [frame]) :
    (framesTaken d (log ++ [act]))[(read d log).next]? = some frame := by
  rw [framesTaken_append, next_read, List.getElem?_append_right (Nat.le_refl _), Nat.sub_self,
    framesTaken, List.flatMap_singleton, h]
  rfl

/-- Numbers are given out in order. -/
theorem next_le (d : Direction) (log acts : List Act) :
    (read d log).next ≤ (read d (log ++ acts)).next := by
  rw [next_read, next_read, framesTaken_append, List.length_append]
  exact Nat.le_add_right _ _

/-- An act that takes nothing from a link and promotes nothing leaves the tally alone. -/
theorem read_of_untaken (htakes : act.takenOn d = []) (hpromotes : act.promotes = false) :
    read d (log ++ [act]) = read d log := by
  have hne : ∀ {e : Direction} {frame : Frame}, (if e = d then [frame] else []) = [] → e ≠ d := by
    rintro e frame h rfl
    rw [if_pos rfl] at h
    cases h
  rw [read_concat]
  cases act with
  | applied e frame => rw [note, if_neg (hne htakes)]
  | parked e frame => rw [note, if_neg (hne htakes)]
  | rejected e frame => rw [note, if_neg (hne htakes)]
  | promoted e => cases hpromotes
  | sent e frame => rfl
  | hungUp e => rfl

/-- The numbers of a tally have been given out, and each edge is used once or still in the slot. -/
structure Proper (t : Tally) : Prop where
  used : ∀ i ∈ t.used, i < t.next
  nodup : t.used.Nodup
  slot : ∀ i, t.slot = some i → i < t.next ∧ i ∉ t.used

theorem Proper.promote {t : Tally} (h : t.Proper) : t.promote.Proper := by
  unfold Tally.promote
  cases hslot : t.slot with
  | none => exact ⟨by simpa using h.used, by simpa using h.nodup, nofun⟩
  | some i =>
    obtain ⟨hlt, hfree⟩ := h.slot i hslot
    refine ⟨fun j hj => ?_, List.concat_eq_append ▸ h.nodup.concat hfree, nofun⟩
    rcases List.mem_append.1 hj with hj | hj
    · exact h.used j hj
    · exact List.mem_singleton.1 hj ▸ hlt

theorem Proper.note {t : Tally} (h : t.Proper) (d : Direction) (act : Act) :
    (t.note d act).Proper := by
  have hfresh : t.next ∉ t.used := fun hmem => Nat.lt_irrefl _ (h.used _ hmem)
  cases act with
  | applied e frame =>
    rw [Tally.note]
    split
    · refine ⟨fun i hi => ?_, List.concat_eq_append ▸ h.nodup.concat hfresh, fun i hi => ?_⟩
      · rcases List.mem_append.1 hi with hi | hi
        · exact Nat.lt_succ_of_lt (h.used i hi)
        · exact List.mem_singleton.1 hi ▸ Nat.lt_succ_self _
      · obtain ⟨hlt, hfree⟩ := h.slot i hi
        refine ⟨Nat.lt_succ_of_lt hlt, fun hmem => ?_⟩
        rcases List.mem_append.1 hmem with hmem | hmem
        · exact hfree hmem
        · exact Nat.ne_of_lt hlt (List.mem_singleton.1 hmem)
    · exact h
  | parked e frame =>
    rw [Tally.note]
    split
    · refine ⟨fun i hi => Nat.lt_succ_of_lt (h.used i hi), h.nodup, fun i hi => ?_⟩
      obtain rfl := Option.some.inj hi
      exact ⟨Nat.lt_succ_self _, hfresh⟩
    · exact h
  | rejected e frame =>
    rw [Tally.note]
    split
    · exact ⟨fun i hi => Nat.lt_succ_of_lt (h.used i hi), h.nodup,
        fun i hi => ⟨Nat.lt_succ_of_lt (h.slot i hi).1, (h.slot i hi).2⟩⟩
    · exact h
  | promoted e =>
    rw [Tally.note]
    split
    · exact h.promote
    · exact h
  | sent e frame => exact h
  | hungUp e => exact h

/-- **No edge is put to use twice**, whatever the acts. -/
theorem proper_read (d : Direction) (log : List Act) : (read d log).Proper := by
  induction log using List.reverseRecOn with
  | nil => exact ⟨nofun, List.nodup_nil, nofun⟩
  | append_singleton log act ih =>
    rw [read_concat]
    exact ih.note d act

/-- Only what is kept or promoted changes the slot. -/
theorem slot_note (t : Tally) (d : Direction) (hparks : act.parks = false)
    (hpromotes : act.promotes = false) : (t.note d act).slot = t.slot := by
  cases act with
  | applied e frame => rw [note]; split <;> rfl
  | rejected e frame => rw [note]; split <;> rfl
  | sent e frame => rfl
  | hungUp e => rfl
  | parked e frame => cases hparks
  | promoted e => cases hpromotes

/-- Every act but a promotion that puts an edge to use gives a number. -/
theorem length_used_note (t : Tally) (d : Direction) (hpromotes : act.promotes = false) :
    (t.note d act).used.length = t.used.length + [act].countP (Act.uses d) := by
  cases act with
  | applied e frame => by_cases he : e = d <;> simp [note, Act.uses, he]
  | parked e frame => by_cases he : e = d <;> simp [note, Act.uses, he]
  | rejected e frame => by_cases he : e = d <;> simp [note, Act.uses, he]
  | sent e frame => rfl
  | hungUp e => rfl
  | promoted e => cases hpromotes

/-- Kept edges that are put to use, one after the other. -/
theorem read_promoted (d : Direction) (log : List Act) (ds : List Direction) :
    read d (log ++ ds.map .promoted) =
      if d ∈ ds then (read d log).promote else read d log := by
  have htwice : ∀ t : Tally, t.promote.promote = t.promote := fun t => by simp [promote]
  induction ds using List.reverseRecOn with
  | nil => rw [List.map_nil, List.append_nil, if_neg List.not_mem_nil]
  | append_singleton ds e ih =>
    rw [List.map_append, ← List.append_assoc, List.map_singleton, read_concat, ih, note]
    by_cases he : e = d
    · subst he
      rw [if_pos rfl, if_pos (List.mem_append_right _ (List.mem_singleton_self e))]
      split
      · exact htwice _
      · rfl
    · have hmem : d ∈ ds ++ [e] ↔ d ∈ ds := by simp [Ne.symm he]
      rw [if_neg he]
      simp only [hmem]

end Tally

/-! ### Exchanges that are accounted for -/

/-- An exchange whose slots hold the edges that the tallies of a log say, each for a neighbor and
tagged with its direction. Each time that an edge has been put to use there was a frame for it. -/
structure Exchange.Accounted (x : Exchange) (S : Nat) (order : List Direction) (log : List Act) :
    Prop where
  edgeLength : x.edgeLength = S
  sendOrder : x.sendOrder = order
  listening : ∀ d, x.listening.get d = true → d ∈ order
  empty : ∀ d, x.lookahead.get d = none → (Tally.read d log).slot = none
  kept : ∀ d m, x.lookahead.get d = some m → d ∈ order ∧ m.direction = d ∧ ∃ i frame,
    (Tally.read d log).slot = some i ∧ (framesTaken d log)[i]? = some frame ∧
    EdgeMessage.decode S frame = .ok m
  uses : ∀ d, (Tally.read d log).used.length = log.countP (Act.uses d)

namespace Exchange

variable (x : Exchange) (iteration : UInt32) (outgoing incoming : Compass Edge)

/-- An edge kept for a parity is in the slot, with that parity. -/
theorem lookahead_of_kept {p : Parity} {d : Direction} {edge : Edge} (h : x.kept p d = some edge) :
    ∃ e, x.lookahead.get d = some ⟨e, p, edge⟩ := by
  obtain ⟨m, hm, hedge⟩ := Option.bind_eq_some_iff.1 h
  split at hedge
  · next hparity =>
    obtain rfl := Option.some.inj hedge
    obtain rfl := hparity
    exact ⟨m.direction, hm⟩
  · cases hedge

/-- The directions whose edges are put to use at the start of a round. -/
theorem mem_kept (p : Parity) (d : Direction) :
    d ∈ Direction.all.filter (fun d => (x.kept p d).isSome) ↔ (x.kept p d).isSome = true := by
  rw [List.mem_filter, and_iff_right (Direction.mem_all d)]

/-- The slots after the start of a round: what is put to use is gone. -/
theorem lookahead_start (d : Direction) :
    (x.start iteration outgoing incoming).1.lookahead.get d =
      if (x.kept (.ofIteration iteration) d).isSome then none else x.lookahead.get d :=
  Compass.get_ofFn _ d

/-- The tallies after the start of a round: what is put to use has left its slot. -/
theorem read_start (log : List Act) (d : Direction) :
    Tally.read d (log ++ (x.start iteration outgoing incoming).2.2.2) =
      if (x.kept (.ofIteration iteration) d).isSome then (Tally.read d log).promote
      else Tally.read d log := by
  rw [start, Tally.read_promoted]
  simp only [x.mem_kept]

/-- Each edge is put to use at most once at the start of a round. -/
theorem countP_uses_start (d : Direction) :
    (x.start iteration outgoing incoming).2.2.2.countP (Act.uses d) =
      if (x.kept (.ofIteration iteration) d).isSome then 1 else 0 := by
  have hnodup : (Direction.all.filter fun d => (x.kept (.ofIteration iteration) d).isSome).Nodup :=
    List.Pairwise.filter _ (by decide)
  rw [start, List.countP_map]
  simp only [← x.mem_kept]
  exact hnodup.count

end Exchange

namespace Exchange.Accounted

variable {x y : Exchange} {S : Nat} {order : List Direction} {log acts : List Act} {act : Act}

theorem uses_concat (h : x.Accounted S order log) (hpromotes : act.promotes = false)
    (d : Direction) :
    (Tally.read d (log ++ [act])).used.length = (log ++ [act]).countP (Act.uses d) := by
  rw [Tally.read_concat, Tally.length_used_note _ d hpromotes, h.uses, List.countP_append]

/-- An act that leaves the slots alone keeps the account of them. -/
theorem concat (h : x.Accounted S order log) (hparks : act.parks = false)
    (hpromotes : act.promotes = false) (hlength : y.edgeLength = x.edgeLength)
    (horder : y.sendOrder = x.sendOrder) (hlookahead : y.lookahead = x.lookahead)
    (hlistening : ∀ d, y.listening.get d = true → x.listening.get d = true) :
    y.Accounted S order (log ++ [act]) := by
  have hslot : ∀ d, (Tally.read d (log ++ [act])).slot = (Tally.read d log).slot := by
    intro d
    rw [Tally.read_concat, Tally.slot_note _ d hparks hpromotes]
  refine ⟨hlength.trans h.edgeLength, horder.trans h.sendOrder,
    fun d hd => h.listening d (hlistening d hd), fun d hd => ?_, fun d m hm => ?_,
    fun d => h.uses_concat hpromotes d⟩
  · rw [hslot]
    exact h.empty d (hlookahead ▸ hd)
  · obtain ⟨hmem, hdirection, i, frame, hi, hframe, hdecode⟩ := h.kept d m (hlookahead ▸ hm)
    exact ⟨hmem, hdirection, i, frame, (hslot d).trans hi, getElem?_framesTaken hframe _, hdecode⟩

/-- **Every step is accounted for.** -/
theorem step {s next : Session} (h : s.exchange.Accounted S order log) (hstep : s.Step act next) :
    next.exchange.Accounted S order (log ++ [act]) := by
  cases hstep with
  | sent => exact h.concat rfl rfl rfl rfl rfl fun _ hd => hd
  | applied => exact h.concat rfl rfl rfl rfl rfl fun _ hd => hd
  | rejected => exact h.concat rfl rfl rfl rfl rfl fun _ hd => hd
  | @hungUp d =>
    refine h.concat rfl rfl rfl rfl rfl fun e he => ?_
    change (s.exchange.listening.set d false).get e = true at he
    rw [Compass.get_set] at he
    split at he
    · cases he
    · exact he
  | @parked d frame rest message harrives hreads _ _ =>
    have hother : ∀ e, e ≠ d →
        Tally.read e (log ++ [.parked d frame]) = Tally.read e log := fun e he =>
      Tally.read_of_untaken (if_neg (Ne.symm he)) rfl
    refine ⟨h.edgeLength, h.sendOrder, h.listening, fun e he => ?_, fun e m hm => ?_,
      fun e => h.uses_concat rfl e⟩
    · change (s.exchange.lookahead.set d (some message)).get e = none at he
      rw [Compass.get_set] at he
      split at he
      · cases he
      · next hne => rw [hother e hne, h.empty e he]
    · change (s.exchange.lookahead.set d (some message)).get e = some m at hm
      rw [Compass.get_set] at hm
      split at hm
      · -- the slot holds the frame that has just come out of the link
        next he =>
        obtain rfl := Option.some.inj hm
        subst he
        refine ⟨h.listening e harrives.listening, hreads.direction, (Tally.read e log).next, frame,
          ?_, ?_, ?_⟩
        · rw [Tally.read_concat, Tally.note, if_pos rfl]
        · exact Tally.getElem?_next (if_pos rfl)
        · rw [← h.edgeLength]
          exact hreads.decode
      · next hne =>
        obtain ⟨hmem, hdirection, i, frame', hi, hframe, hdecode⟩ := h.kept e m hm
        exact ⟨hmem, hdirection, i, frame', (congrArg Tally.slot (hother e hne)).trans hi,
          getElem?_framesTaken hframe _, hdecode⟩

/-- **Every poll is accounted for.** -/
theorem poll {s : Session} (h : s.exchange.Accounted S order log) :
    s.poll.session.exchange.Accounted S order (log ++ s.poll.acts) := by
  refine Session.poll_induction (motive := fun acts s => s.exchange.Accounted S order (log ++ acts))
    s ?_ fun hmotive hstep => ?_
  · rw [List.append_nil]
    exact h
  · rw [← List.append_assoc]
    exact hmotive.step hstep

/-- **The start of a round is accounted for.** -/
theorem start (h : x.Accounted S order log) (iteration : UInt32)
    (outgoing incoming : Compass Edge) : (x.start iteration outgoing incoming).1.Accounted S order
      (log ++ (x.start iteration outgoing incoming).2.2.2) := by
  have hlookahead := x.lookahead_start iteration outgoing incoming
  have hread := x.read_start iteration outgoing incoming log
  refine ⟨h.edgeLength, h.sendOrder, h.listening, fun d hd => ?_, fun d m hm => ?_, fun d => ?_⟩
  · rw [hread]
    rw [hlookahead] at hd
    split
    · rfl
    · next hkept =>
      rw [if_neg hkept] at hd
      exact h.empty d hd
  · rw [hlookahead] at hm
    split at hm
    · cases hm
    · next hkept =>
      obtain ⟨hmem, hdirection, i, frame, hi, hframe, hdecode⟩ := h.kept d m hm
      refine ⟨hmem, hdirection, i, frame, ?_, getElem?_framesTaken hframe _, hdecode⟩
      rw [hread, if_neg hkept, hi]
  · rw [hread, List.countP_append, x.countP_uses_start, ← h.uses]
    split
    · -- what is put to use has a number, that of the slot
      next hkept =>
      obtain ⟨edge, hedge⟩ := Option.isSome_iff_exists.1 hkept
      obtain ⟨e, hm⟩ := x.lookahead_of_kept hedge
      obtain ⟨-, -, i, frame, hi, -⟩ := h.kept d _ hm
      rw [Tally.promote, hi, Option.toList_some, List.length_append, List.length_singleton]
    · rfl

end Exchange.Accounted
end DiffusionMesh

/-
# The order of sending

A round sends its edges one after the other, in the order of directions. Whatever arrives in between,
what it has sent is the beginning of a fixed list, one frame for each neighbor, and what is left to
send is the rest:

```
   frames sent        edges left to send
 ├─ nextSend ─┤├───────── unsent ─────────┤
```

Main statement: `Round.Sending.poll`.
-/

import DiffusionMesh.Proofs.Halo.Ledger

namespace DiffusionMesh

/-- The frame of an outgoing edge in an iteration. -/
def outgoingFrame (t : UInt32) (outgoing : Compass Edge) (d : Direction) : Frame :=
  EdgeMessage.encode ⟨d.opposite, .ofIteration t, outgoing.get d⟩

/-- A round of an iteration that has sent the first of its edges, in the order of sending, and has so
many left to send. -/
structure Round.Sending (r : Round) (order : List Direction) (t : UInt32) (edges : Compass Edge)
    (acts : List Act) (unsent : Nat) : Prop where
  iteration : r.iteration = t
  outgoing : r.outgoing = edges
  sends : r.nextSend + unsent = order.length
  sent : r.report.sent = r.nextSend
  frames : acts.filter Act.sends =
    (order.take r.nextSend).map fun d => .sent d (outgoingFrame t edges d)

namespace Round.Sending

variable {order : List Direction} {t : UInt32} {outgoing : Compass Edge} {acts : List Act}

/-- A round begins with all its edges to send. -/
theorem start (x : Exchange) (t : UInt32) (outgoing incoming : Compass Edge) :
    (x.start t outgoing incoming).2.1.Sending x.sendOrder t outgoing
      (x.start t outgoing incoming).2.2.2 (x.start t outgoing incoming).1.unsent := by
  refine ⟨rfl, rfl, Nat.zero_add _, rfl, List.filter_eq_nil_iff.2 fun a ha => ?_⟩
  have hpromotes := x.promotes_start t outgoing incoming a ha
  cases a with
  | promoted d => exact Bool.false_ne_true
  | _ => cases hpromotes

/-- **Every step keeps the order of sending.** -/
theorem step {s next : Session} {act : Act}
    (h : s.round.Sending order t outgoing acts s.exchange.unsent)
    (horder : s.exchange.sendOrder = order) (hstep : s.Step act next) :
    next.round.Sending order t outgoing (acts ++ [act]) next.exchange.unsent := by
  have hquiet : act.sends = false → (acts ++ [act]).filter Act.sends =
      (order.take s.round.nextSend).map fun d => .sent d (outgoingFrame t outgoing d) := by
    intro hsends
    rw [List.filter_append, List.filter_cons_of_neg (by rw [hsends]; exact Bool.false_ne_true),
      List.filter_nil, List.append_nil, h.frames]
  cases hstep with
  | @sent d link hunsent htarget _ =>
    have hsends := h.sends
    have hframe : s.frameFor d = outgoingFrame t outgoing d := by
      rw [Session.frameFor, Round.parity, h.iteration, h.outgoing, outgoingFrame]
    have hget : order[s.round.nextSend]? = some d := horder ▸ htarget
    refine ⟨h.iteration, h.outgoing, ?_, congrArg (· + 1) h.sent, ?_⟩
    · change s.round.nextSend + 1 + (s.exchange.unsent - 1) = _
      omega
    · change _ = (order.take (s.round.nextSend + 1)).map _
      rw [List.filter_append, h.frames, List.take_add_one, hget, List.map_append, hframe]
      rfl
  | applied => exact ⟨h.iteration, h.outgoing, h.sends, h.sent, hquiet rfl⟩
  | parked => exact ⟨h.iteration, h.outgoing, h.sends, h.sent, hquiet rfl⟩
  | rejected => exact ⟨h.iteration, h.outgoing, h.sends, h.sent, hquiet rfl⟩
  | hungUp => exact ⟨h.iteration, h.outgoing, h.sends, h.sent, hquiet rfl⟩

/-- **Every poll keeps the order of sending.** -/
theorem poll {s : Session} (h : s.round.Sending order t outgoing acts s.exchange.unsent)
    (horder : s.exchange.sendOrder = order) : s.poll.session.round.Sending order t outgoing
      (acts ++ s.poll.acts) s.poll.session.exchange.unsent := by
  refine (Session.poll_induction (motive := fun more s => s.exchange.sendOrder = order ∧
    s.round.Sending order t outgoing (acts ++ more) s.exchange.unsent) s ⟨horder, ?_⟩
    fun ⟨hsame, hsending⟩ hstep => ⟨hstep.ledger.sendOrder.trans hsame, ?_⟩).2
  · rw [List.append_nil]
    exact h
  · rw [← List.append_assoc]
    exact hsending.step hsame hstep

/-- A round with nothing left to send has sent one frame to each neighbor. -/
theorem all {r : Round} (h : r.Sending order t outgoing acts 0) : acts.filter Act.sends =
    order.map fun d => .sent d (outgoingFrame t outgoing d) := by
  rw [h.frames, show r.nextSend = order.length from h.sends, List.take_length]

end Round.Sending
end DiffusionMesh

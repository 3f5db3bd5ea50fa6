/-
# Frame accounts of a mesh

Polls and cancelled steps of the cells of a mesh keep two accounts, whatever the iterations and in
whatever order:

| counter | equals |
| --- | --- |
| frames sent | frames received + frames on their way |
| edges that came early | edges promoted so far + slots in use |

A counter grows in one place, the queue or slot it counts changes in another. `Cell.Accounts` is
what one poll of a cell owes to both; a mesh keeps its accounts because it is polled one cell at a
time, and cancelling a step touches no link, no counter and no slot.

Main statements: `Cell.accounts_poll` and `Mesh.Balanced.perform`.
-/

import DiffusionMesh.Mesh.Run
import DiffusionMesh.Proofs.Mesh.Blueprint
import DiffusionMesh.Proofs.Mesh.Traffic

namespace DiffusionMesh

/-! ### What entries record -/

/-- The act that an entry records. -/
def Entry.act? : Entry → Option Act
  | .act _ _ a => some a
  | _ => none

/-- The acts that entries record, in order. -/
def Entry.acts (entries : List Entry) : List Act := entries.filterMap act?

theorem Entry.acts_ofActs (cell : CellId) (iteration : UInt32) (acts : List Act) :
    Entry.acts (ofActs cell iteration acts) = acts := by
  rw [Entry.acts, ofActs, List.filterMap_map]
  exact List.filterMap_some

theorem Entry.acts_append (entries more : List Entry) :
    acts (entries ++ more) = acts entries ++ acts more := List.filterMap_append

/-- The number of kept edges that entries record as put to use. -/
def Entry.promotions (entries : List Entry) : Nat := (acts entries).countP Act.promotes

/-! ### Ends of a wired cell -/

/-- **The ends of a wired cell are apart.** -/
theorem Wired.apart {mate : Nat → Direction → Option Nat} {ends : Nat → Ends} {n : Nat}
    (h : Wired mate ends) (hne : ∀ {i d j}, mate i d = some j → j ≠ i)
    (hbound : ∀ {i d m}, (ends i).outbound.get d = some m → m < n) (i : Nat) :
    (ends i).Apart n := by
  have hmate : ∀ {d m}, (ends i).inbound.get d = some m →
      ∃ j, mate i d = some j ∧ (ends j).outbound.get d.opposite = some m := by
    intro d m hm
    cases hj : mate i d with
    | none =>
      rw [(h.alone hj).2] at hm
      cases hm
    | some j => exact ⟨j, rfl, (h.inbound hj).symm.trans hm⟩
  refine ⟨hbound, fun {d m} hm => ?_, fun hd he => (h.injective hd he).2,
    fun {d e m} hd he => ?_, fun {d e m} hd he => ?_⟩
  · obtain ⟨j, -, hout⟩ := hmate hm
    exact hbound hout
  · obtain ⟨j, -, hout⟩ := hmate hd
    obtain ⟨j', -, hout'⟩ := hmate he
    have hopposite := (h.injective hout hout').2
    rw [← d.opposite_opposite, hopposite, Direction.opposite_opposite]
  · obtain ⟨j, hj, hout⟩ := hmate he
    exact hne hj (h.injective hd hout).1.symm

/-! ### One poll of a cell -/

namespace Peer

variable (p : Peer)

/-- A round of a peer with the links at its ends. -/
def session (r : Round) (incoming : Compass Edge) (f : Fabric) : Session :=
  ⟨p.exchange, r, incoming, f.ports p.ends, f.stats⟩

/-- A poll of a peer is one of its round, with the links put back. -/
theorem poll_eq {r : Round} (hr : p.round = some r) (incoming : Compass Edge) (f : Fabric) :
    p.poll incoming f =
      let q := (p.session r incoming f).poll
      { peer := { p with
          exchange := q.session.exchange
          round := match q.verdict with
            | .waiting => some q.session.round
            | _ => none }
        incoming := q.session.incoming
        fabric := { f.store p.ends q.session.ports with stats := q.session.stats }
        acts := q.acts
        verdict := q.verdict } := by
  simp only [poll, hr]
  rfl

end Peer

namespace Cell

/-- The number of a cell's slots in use. -/
def slots (c : Cell) : Nat := c.peer.exchange.slots

/-- The edges that came early in the step in progress. -/
def earlySoFar (c : Cell) : Nat := c.peer.round.elim 0 fun r => r.report.early

/-- The edges that came early in the step that a poll has completed. -/
def earlyOf : Verdict Nat → Nat
  | .finished n => n
  | _ => 0

/-- What the acts of a cell owe to the accounts of its mesh: counters, frames on their way and slots
have changed as they say. -/
structure Settles (c : Cell) (f : Fabric) (acts : List Act) (c' : Cell) (f' : Fabric) : Prop where
  ends : c'.peer.ends = c.peer.ends
  size : f'.links.size = f.links.size
  stats : f'.stats = f.stats.after acts
  queued : f'.queued + acts.countP Act.takes = f.queued + acts.countP Act.sends
  slots : c'.slots + acts.countP Act.promotes = c.slots + acts.countP Act.parks

variable {c c' c'' : Cell} {f f' f'' : Fabric}

theorem Settles.refl (c : Cell) (f : Fabric) : c.Settles f [] c f := ⟨rfl, rfl, rfl, rfl, rfl⟩

theorem Settles.trans {acts more : List Act} (h : c.Settles f acts c' f')
    (h' : c'.Settles f' more c'' f'') : c.Settles f (acts ++ more) c'' f'' := by
  have hqueued := h.queued
  have hqueued' := h'.queued
  have hslots := h.slots
  have hslots' := h'.slots
  refine ⟨h'.ends.trans h.ends, h'.size.trans h.size, ?_, ?_, ?_⟩
  · rw [h'.stats, h.stats, Stats.after_append]
  · simp only [List.countP_append]
    omega
  · simp only [List.countP_append]
    omega

/-- A poll of a cell settles its acts, and accounts for the edges that came early. -/
structure Accounts (c : Cell) (f : Fabric) (p : Polled) : Prop
    extends c.Settles f (Entry.acts p.entries) p.cell p.fabric where
  early : (∀ cause, p.verdict ≠ .failed cause) → p.cell.earlySoFar + earlyOf p.verdict =
    c.earlySoFar + (Entry.acts p.entries).countP Act.parks

/-- An idle cell has nothing to resume. -/
theorem resume_of_idle (hr : c.peer.round = none) (f : Fabric) :
    c.resume f = ⟨c, f, [], .waiting⟩ := by
  simp only [resume, Peer.poll, hr]
  rfl

/-- A step that is resumed settles its accounts. -/
theorem accounts_resume (h : c.peer.ends.Apart f.links.size) : c.Accounts f (c.resume f) := by
  cases hr : c.peer.round with
  | none =>
    rw [resume_of_idle hr]
    exact ⟨.refl c f, fun _ => rfl⟩
  | some r =>
    have hpoll := c.peer.poll_eq hr c.state.incoming f
    have hledger := (c.peer.session r c.state.incoming f).ledger_poll
    have hfinished := fun report
        (hq : (c.peer.session r c.state.incoming f).poll.verdict = .finished report) =>
      Session.poll_finished _ hq
    have hstore := Fabric.queued_store h hledger.replaces
    have hqueued := hledger.queued
    generalize (c.peer.session r c.state.incoming f).poll = q at *
    have hacts : Entry.acts (c.resume f).entries = q.acts := by
      rw [resume, hpoll]
      exact Entry.acts_ofActs _ _ _
    refine ⟨⟨?_, ?_, ?_, ?_, ?_⟩, ?_⟩
    · rw [resume, hpoll]
    · rw [resume, hpoll]
      exact Fabric.size_store ..
    · rw [hacts, resume, hpoll]
      exact hledger.stats
    · rw [hacts, resume, hpoll]
      change (f.store c.peer.ends q.session.ports).queued + _ = _
      change _ = (f.ports c.peer.ends).queued + _ at hqueued
      omega
    · rw [hacts, hledger.promoted, resume, hpoll]
      exact hledger.slots
    · intro hok
      rw [hacts]
      rw [resume, hpoll] at hok ⊢
      have hearly : q.session.round.report.early = r.report.early + q.acts.countP Act.parks :=
        hledger.early
      simp only [earlySoFar, hr, Option.elim_some] at hok ⊢
      cases hverdict : q.verdict with
      | finished report =>
        rw [← hearly, (hfinished report hverdict).1]
        exact Nat.zero_add _
      | waiting => exact hearly
      | failed cause => exact absurd (by rw [hverdict]) (hok cause)

/-- What the beginning of a step does. -/
theorem of_begin {iteration : UInt32} {begun : Cell} {entries : List Entry}
    (h : c.begin iteration = .ok (begun, entries)) :
    let s := c.peer.exchange.start iteration c.state.update.outgoing c.state.update.incoming
    begun = { c with
      state := { c.state.update with incoming := s.2.2.1 }
      peer := { c.peer with exchange := s.1, round := some s.2.1 } } ∧
      entries = Entry.ofActs c.id iteration s.2.2.2 := by
  unfold begin at h
  cases hdrained : c.peer.exchange.ensureDrained with
  | error cause =>
    rw [hdrained] at h
    cases h
  | ok =>
    rw [hdrained] at h
    obtain ⟨rfl, rfl⟩ := Prod.mk.inj (Except.ok.inj h)
    exact ⟨rfl, rfl⟩

/-- A step that begins puts kept edges to use, and does nothing else. -/
theorem promotes_begin {iteration : UInt32} {begun : Cell} {entries : List Entry}
    (h : c.begin iteration = .ok (begun, entries)) :
    ∀ a ∈ Entry.acts entries, a.promotes = true := by
  rw [(of_begin h).2, Entry.acts_ofActs]
  exact c.peer.exchange.promotes_start iteration c.state.update.outgoing c.state.update.incoming

/-- The beginning of a step settles its acts. -/
theorem settles_begin {iteration : UInt32} {begun : Cell} {entries : List Entry}
    (h : c.begin iteration = .ok (begun, entries)) (f : Fabric) :
    c.Settles f (Entry.acts entries) begun f := by
  have hpromotes := promotes_begin h
  obtain ⟨hsends, htakes, hparks, -⟩ := Act.countP_of_promotes hpromotes
  obtain ⟨rfl, rfl⟩ := of_begin h
  have hslots := c.peer.exchange.slots_start iteration c.state.update.outgoing
    c.state.update.incoming
  rw [Entry.acts_ofActs] at hpromotes hsends htakes hparks ⊢
  refine ⟨rfl, rfl, (Stats.after_of_promotes hpromotes _).symm, ?_, ?_⟩
  · exact congrArg (f.queued + ·) (htakes.trans hsends.symm)
  · exact hslots.trans (congrArg (c.slots + ·) hparks).symm

/-! The three ways in which a poll of a cell can go. -/

theorem poll_of_running {r : Round} (hr : c.peer.round = some r) (iteration : UInt32) (f : Fabric) :
    c.poll iteration f = c.resume f := by
  simp only [poll, hr]

theorem poll_of_refused {iteration : UInt32} {cause : Failure} (hr : c.peer.round = none)
    (h : c.begin iteration = .error cause) (f : Fabric) :
    c.poll iteration f = ⟨c, f, [], .failed cause⟩ := by
  simp only [poll, hr, h]

theorem poll_of_begun {iteration : UInt32} {begun : Cell} {entries : List Entry}
    (hr : c.peer.round = none) (h : c.begin iteration = .ok (begun, entries)) (f : Fabric) :
    c.poll iteration f =
      { begun.resume f with entries := entries ++ (begun.resume f).entries } := by
  simp only [poll, hr, h]

/-- A poll is refused, or resumes a cell: the cell itself, or what the beginning of a step makes of it,
which puts kept edges to use and does nothing else. -/
theorem poll_cases (c : Cell) (iteration : UInt32) (f : Fabric) :
    (∃ cause, c.poll iteration f = ⟨c, f, [], .failed cause⟩) ∨
    ∃ started entries, c.poll iteration f =
        { started.resume f with entries := entries ++ (started.resume f).entries } ∧
      c.Settles f (Entry.acts entries) started f ∧ started.earlySoFar = c.earlySoFar ∧
      ∀ a ∈ Entry.acts entries, a.promotes = true := by
  cases hr : c.peer.round with
  | some r =>
    refine .inr ⟨c, [], poll_of_running hr iteration f, .refl c f, rfl, fun a ha => ?_⟩
    exact absurd ha List.not_mem_nil
  | none =>
    cases hbegin : c.begin iteration with
    | error cause => exact .inl ⟨cause, poll_of_refused hr hbegin f⟩
    | ok begun =>
      obtain ⟨begun, entries⟩ := begun
      refine .inr ⟨begun, entries, poll_of_begun hr hbegin f, settles_begin hbegin f, ?_,
        promotes_begin hbegin⟩
      obtain ⟨rfl, -⟩ := of_begin hbegin
      rw [earlySoFar, earlySoFar, hr]
      rfl

/-- **A poll of a cell settles its accounts**, whether it resumes a step, begins one or is refused
one. -/
theorem accounts_poll (h : c.peer.ends.Apart f.links.size) (iteration : UInt32) :
    c.Accounts f (c.poll iteration f) := by
  obtain ⟨cause, hpoll⟩ | ⟨started, entries, hpoll, hstarted, hearly, hpromotes⟩ :=
    c.poll_cases iteration f
  · rw [hpoll]
    exact ⟨.refl c f, fun hok => absurd rfl (hok cause)⟩
  · have hresume := started.accounts_resume (f := f) (hstarted.ends ▸ h)
    obtain ⟨-, -, hparks, -⟩ := Act.countP_of_promotes hpromotes
    rw [hpoll]
    refine ⟨?_, fun hok => ?_⟩
    · rw [Entry.acts_append]
      exact hstarted.trans hresume.toSettles
    · have hresumed := hresume.early hok
      rw [hearly] at hresumed
      rw [Entry.acts_append, List.countP_append, hparks, Nat.zero_add]
      exact hresumed

end Cell

/-! ### Polls and cancelled steps of a mesh -/

namespace Mesh

/-- What can be done with the cells of a mesh: a step is polled, or given up. -/
inductive Action where
  | poll (cell : Nat) (iteration : UInt32)
  | cancel (cell : Nat)

/-- The mesh after an action, and what the action has recorded. -/
def act (m : Mesh) : Action → Mesh × List Entry
  | .poll k t => ((m.poll k t).1, (m.poll k t).2.elim [] Cell.Polled.entries)
  | .cancel k => (m.cancel k, [])

/-- The mesh after some actions in turn, and what they have recorded. -/
def perform (m : Mesh) : List Action → Mesh × List Entry
  | [] => (m, [])
  | a :: rest => (((m.act a).1.perform rest).1, (m.act a).2 ++ ((m.act a).1.perform rest).2)

/-- The number of slots in use in the whole mesh. -/
def slots (m : Mesh) : Nat :=
  ((List.range m.cells.size).map fun k => (m.cell? k).elim 0 Cell.slots).sum

/-- A mesh that has kept its accounts, with what has been recorded so far. -/
structure Balanced (m : Mesh) (past : List Entry) : Prop where
  apart : ∀ {k c}, m.cell? k = some c → c.peer.ends.Apart m.fabric.links.size
  frames : m.fabric.stats.sent = m.fabric.stats.received + m.fabric.queued
  early : m.fabric.stats.early = Entry.promotions past + m.slots

variable {m : Mesh} {past : List Entry}

theorem act_poll_of_absent {k : Nat} (h : m.cell? k = none) (iteration : UInt32) :
    m.act (.poll k iteration) = (m, []) := by
  simp only [act, Mesh.poll, h]
  rfl

theorem act_poll_of_present {k : Nat} {c : Cell} (h : m.cell? k = some c) (iteration : UInt32) :
    m.act (.poll k iteration) =
      ({ m with
          fabric := (c.poll iteration m.fabric).fabric
          cells := m.cells.setIfInBounds k (some (c.poll iteration m.fabric).cell) },
        (c.poll iteration m.fabric).entries) := by
  simp only [act, Mesh.poll, h]
  rfl

/-- The cells after one of them has been replaced. -/
theorem cell?_set {k : Nat} {c : Cell} (h : m.cell? k = some c) (v : Option Cell) (f : Fabric)
    (j : Nat) : cell? { m with fabric := f, cells := m.cells.setIfInBounds k v } j =
      if j = k then v else m.cell? j := by
  have hk : k < m.cells.size := (Array.getElem?_eq_some_iff.1 (Option.join_eq_some_iff.1 h)).1
  rw [cell?, Array.getElem?_setIfInBounds]
  by_cases hj : j = k
  · rw [if_pos hj.symm, if_pos hj, if_pos hk]
    rfl
  · rw [if_neg (Ne.symm hj), if_neg hj, cell?]

/-- The slots in use after one of the cells has been replaced. -/
theorem slots_set {k : Nat} {c : Cell} (h : m.cell? k = some c) (v : Option Cell) (f : Fabric) :
    slots { m with fabric := f, cells := m.cells.setIfInBounds k v } + c.slots =
      m.slots + v.elim 0 Cell.slots :=
  sum_setIfInBounds h v Cell.slots

/-- A poll of a cell keeps the accounts. -/
theorem Balanced.poll (h : m.Balanced past) (k : Nat) (iteration : UInt32) :
    (m.act (.poll k iteration)).1.Balanced (past ++ (m.act (.poll k iteration)).2) := by
  cases hc : m.cell? k with
  | none =>
    rw [act_poll_of_absent hc, List.append_nil]
    exact h
  | some c =>
    have haccounts := c.accounts_poll (h.apart hc) iteration
    have hsum := slots_set hc (some (c.poll iteration m.fabric).cell)
      (c.poll iteration m.fabric).fabric
    rw [act_poll_of_present hc]
    generalize c.poll iteration m.fabric = p at haccounts hsum
    refine ⟨fun {j c'} hc' => ?_, ?_, ?_⟩
    · rw [cell?_set hc] at hc'
      rw [haccounts.size]
      split at hc'
      · obtain rfl := Option.some.inj hc'
        rw [haccounts.ends]
        exact h.apart hc
      · exact h.apart hc'
    · have hqueued := haccounts.queued
      have hframes := h.frames
      simp only [haccounts.stats, Stats.after]
      omega
    · have hslots := haccounts.slots
      have hearly := h.early
      rw [Option.elim_some] at hsum
      simp only [haccounts.stats, Stats.after, Entry.promotions, Entry.acts_append,
        List.countP_append] at hearly ⊢
      omega

/-- A step that is given up leaves links, counters and slots alone. -/
theorem Balanced.cancel (h : m.Balanced past) (k : Nat) : (m.cancel k).Balanced past := by
  have hcell : ∀ j, (m.cancel k).cell? j =
      if k = j then (m.cell? j).map Cell.cancel else m.cell? j := by
    intro j
    rw [Mesh.cancel, cell?, cell?, Array.getElem?_modify]
    split
    · cases m.cells[j]? with
      | none => rfl
      | some c => rfl
    · rfl
  have hslots : (m.cancel k).slots = m.slots := by
    have hsize : (m.cancel k).cells.size = m.cells.size := Array.size_modify
    rw [slots, slots, hsize]
    refine congrArg List.sum (List.map_congr_left fun j _ => ?_)
    rw [hcell]
    split
    · cases m.cell? j <;> rfl
    · rfl
  refine ⟨fun {j c} hc => ?_, h.frames, hslots ▸ h.early⟩
  rw [hcell] at hc
  split at hc
  · obtain ⟨c', hc', rfl⟩ := Option.map_eq_some_iff.1 hc
    exact (h.apart hc' : c'.peer.ends.Apart _)
  · exact h.apart hc

/-- **Every run of polls and cancelled steps keeps the accounts.** -/
theorem Balanced.perform (h : m.Balanced past) (actions : List Action) :
    (m.perform actions).1.Balanced (past ++ (m.perform actions).2) := by
  induction actions generalizing m past with
  | nil =>
    rw [Mesh.perform, List.append_nil]
    exact h
  | cons a rest ih =>
    rw [Mesh.perform, ← List.append_assoc]
    refine ih ?_
    cases a with
    | poll k t => exact h.poll k t
    | cancel k =>
      simp only [act, List.append_nil]
      exact h.cancel k

/-- No frame is on its way over links that nobody has used. -/
theorem queued_of_fresh {f : Fabric} {capacity : Nat}
    (h : ∀ {i : Nat} {l : Link}, f.links[i]? = some l → l = .ofCapacity capacity) :
    f.queued = 0 := by
  refine List.sum_eq_zero fun n hn => ?_
  obtain ⟨l, hl, rfl⟩ := List.mem_map.1 hn
  obtain ⟨i, hi⟩ := Array.getElem?_of_mem (Array.mem_toList_iff.1 hl)
  rw [h hi]
  rfl

/-- **A mesh begins with its accounts in balance.** -/
theorem balanced_of_outset {S : Nat} {b : Border} {capacity : UInt64} {ends : Nat → Ends}
    (h : m.Outset S b capacity ends) : m.Balanced [] := by
  have hcell : ∀ {k c}, m.cell? k = some c → c = m.geometry.outsetCell S b ends k := by
    intro k c hc
    rw [h.cells] at hc
    split at hc
    · exact (Option.some.inj hc).symm
    · cases hc
  refine ⟨fun {k c} hc => ?_, ?_, ?_⟩
  · rw [hcell hc]
    exact h.wired.apart Geometry.mate_ne h.bound k
  · rw [h.stats, queued_of_fresh h.fresh]
  · have hslots : m.slots = 0 := by
      refine List.sum_eq_zero fun n hn => ?_
      obtain ⟨k, -, rfl⟩ := List.mem_map.1 hn
      cases hc : m.cell? k with
      | none => rfl
      | some c =>
        rw [hcell hc]
        rfl
    rw [h.stats, hslots]
    rfl

end Mesh
end DiffusionMesh

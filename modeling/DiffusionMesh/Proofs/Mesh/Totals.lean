/-
# Totals of a run

A run keeps the accounts of its mesh, and one more: the edges that came early are those that the
reports of the finished cells name and those that the other workers have counted so far.

| at the end | because |
| --- | --- |
| no frame is on its way | each link has carried one frame per iteration, both ways |
| no slot is in use | a cell that is through has put every edge to use |
| `4 L (L - 1) N` frames sent, as many received | that many pairs of neighbors, `N` iterations |

Main statements: `Run.Balanced.poll`, one poll, and `Mesh.frames_conserved`.
-/

import DiffusionMesh.Proofs.Mesh.Accounts
import DiffusionMesh.Proofs.Mesh.Refinement

namespace DiffusionMesh

/-- In concord the ends of a cell are apart. -/
theorem Concord.apart {P : Plan} {ends : Nat → Ends} {f : Fabric} {crew : Crew}
    (h : Concord P ends f crew) (i : Nat) : (ends i).Apart f.links.size := by
  refine h.wired.apart P.mate_ne (fun {i d m} hm => ?_) i
  cases hj : P.mate i d with
  | none =>
    rw [(h.wired.alone hj).1] at hm
    cases hm
  | some j =>
    obtain ⟨n, l, hn, hl, -⟩ := h.link hj
    obtain rfl := Option.some.inj (hm.symm.trans hn)
    exact (Array.getElem?_eq_some_iff.1 hl).1

namespace Concord

variable {P : Plan} {ends : Nat → Ends} {f : Fabric} {crew : Crew} {i : Nat} {x : Station}

/-- No slot is in use at a cell that has completed its iterations. -/
theorem slots_eq_zero (h : Concord P ends f crew) (hi : crew i = some x)
    (hidle : x.peer.round = none) (hdone : x.completed = P.rounds) : x.peer.exchange.slots = 0 := by
  refine List.countP_eq_zero.2 fun d _ => ?_
  rw [h.slots_of_done hi hidle hdone d]
  exact Bool.false_ne_true

/-- No frame is on its way to a cell that has completed its iterations. -/
theorem load_of_done (h : Concord P ends f crew) (hi : crew i = some x)
    (hidle : x.peer.round = none) (hdone : x.completed = P.rounds) {d : Direction} {n : Nat}
    (hn : (ends i).inbound.get d = some n) : f.load (some n) = 0 := by
  have htaken : (P.mate i d).isSome = true → crew.taken P i d = P.rounds := by
    intro hmate
    obtain ⟨j, hj⟩ := Option.isSome_iff_exists.1 hmate
    rw [Crew.taken, hi]
    exact (h.taken_of_done hi hidle hdone hj).1
  obtain ⟨l, hl, hqueue⟩ := h.inbound_of_taken htaken hn
  rw [Fabric.load, Option.elim_some, List.getD_eq_getElem?_getD, Fabric.getElem?_lengths, hl,
    Option.map_some, hqueue]
  rfl

/-- **No frame is on its way once all cells have left**, since every link has a sender. -/
theorem queued_of_done (h : Concord P ends f crew) (hcrew : ∀ k, crew k = none)
    (howned : ∀ {n}, n < f.links.size → ∃ k d, (ends k).outbound.get d = some n) :
    f.queued = 0 := by
  refine List.sum_eq_zero fun m hm => ?_
  obtain ⟨l, hl, rfl⟩ := List.mem_map.1 hm
  obtain ⟨n, hn⟩ := Array.getElem?_of_mem (Array.mem_toList_iff.1 hl)
  obtain ⟨k, d, hout⟩ := howned (Array.getElem?_eq_some_iff.1 hn).1
  cases hj : P.mate k d with
  | none => exact nomatch (h.wired.alone hj).1.symm.trans hout
  | some j =>
    obtain ⟨n', l', hn', hl', hcarries⟩ := h.link hj
    obtain rfl := Option.some.inj (hn'.symm.trans hout)
    obtain rfl := Option.some.inj (hl'.symm.trans hn)
    rw [hcarries.queue, Crew.taken, Crew.sent, hcrew, hcrew, Option.elim_none, Option.elim_none,
      P.frames_self]
    rfl

end Concord

/-- A station that has done nothing has all its frames to come, one for each port and iteration. -/
theorem Station.Sound.toCome_of_fresh {P : Plan} {i : Nat} {x : Station} (h : x.Sound P i)
    (hidle : x.peer.round = none) (hzero : x.completed = 0)
    (hempty : ∀ d, x.peer.exchange.lookahead.get d = none) (n : Nat) :
    x.toCome n = 2 * n * Direction.all.countP fun d => (P.mate i d).isSome := by
  have hterm : ∀ d, (n - x.sentOn d) + (n - x.takenOn d) = 2 * n := by
    intro d
    rw [takenOn, hempty, sentOn_of_idle hidle, appliedOn_of_idle hidle, hzero, Nat.two_mul]
    rfl
  rw [toCome, List.map_congr_left fun d _ => hterm d, List.map_const', List.sum_replicate_nat,
    h.sendOrder, List.countP_eq_length_filter, Nat.mul_comm]

namespace Worker

/-- The edges that a worker has counted as early. -/
def credit (w : Worker) : Nat := w.early + w.cell.earlySoFar

/-- **A worker settles what its cell has done**, over as many steps as it takes. -/
theorem settles_advance (N : UInt32) (left : Nat) {c : Cell} {f : Fabric}
    (h : c.peer.ends.Apart f.links.size) (early : Nat) (entries : Array Entry) :
    ∃ more, (advance N left c early f entries).entries.toList = entries.toList ++ more ∧
      c.Settles f (Entry.acts more) (advance N left c early f entries).worker.cell
        (advance N left c early f entries).fabric ∧
      ((∀ cause, (advance N left c early f entries).verdict ≠ .failed cause) →
        (advance N left c early f entries).worker.credit =
          early + c.earlySoFar + (Entry.acts more).countP Act.parks) := by
  induction left generalizing c f early entries with
  | zero => exact ⟨[], (List.append_nil _).symm, .refl c f, fun _ => rfl⟩
  | succ left ih =>
    have haccounts := c.accounts_poll h (N - UInt32.ofNat (left + 1))
    simp only [advance]
    generalize c.poll (N - UInt32.ofNat (left + 1)) f = p at haccounts
    have hentries : (entries.appendList p.entries).toList = entries.toList ++ p.entries := by
      rw [Array.appendList_eq_append, Array.toList_appendList]
    have hearly := haccounts.early
    cases hverdict : p.verdict with
    | finished n =>
      obtain ⟨more, hmore, hsettles, hcredit⟩ := ih (c := p.cell) (f := p.fabric)
        (by rw [haccounts.ends, haccounts.size]; exact h) (early + n) (entries.appendList p.entries)
      refine ⟨p.entries ++ more, ?_, ?_, fun hok => ?_⟩
      · rw [hmore, hentries, List.append_assoc]
      · rw [Entry.acts_append]
        exact haccounts.toSettles.trans hsettles
      · rw [hverdict] at hearly
        have hn : p.cell.earlySoFar + n = _ := hearly (by simp)
        rw [hcredit hok, Entry.acts_append, List.countP_append]
        omega
    | waiting =>
      refine ⟨p.entries, hentries, haccounts.toSettles, fun _ => ?_⟩
      rw [hverdict] at hearly
      have hn : p.cell.earlySoFar + 0 = _ := hearly (by simp)
      rw [credit]
      dsimp only
      omega
    | failed cause =>
      exact ⟨p.entries, hentries, haccounts.toSettles, fun hok => absurd rfl (hok cause)⟩

/-- What a poll of a worker settles. -/
theorem settles_poll {w : Worker} {f : Fabric} (h : w.cell.peer.ends.Apart f.links.size) :
    w.cell.Settles f (Entry.acts (w.poll f).entries.toList) (w.poll f).worker.cell
        (w.poll f).fabric ∧
      ((∀ cause, (w.poll f).verdict ≠ .failed cause) → (w.poll f).worker.credit =
        w.credit + (Entry.acts (w.poll f).entries.toList).countP Act.parks) := by
  obtain ⟨more, hmore, hsettles, hcredit⟩ := settles_advance w.iterations w.left h w.early w.opening
  have hopening : Entry.acts w.opening.toList = [] := by
    unfold opening
    split <;> rfl
  rw [w.poll_eq, hmore, Entry.acts_append, hopening]
  exact ⟨hsettles, hcredit⟩

end Worker

namespace Run

/-- What the polls of a schedule have done, one after the other. -/
def events (r : Run) : List Nat → List Event
  | [] => []
  | k :: rest => (r.poll k).2.toList ++ (r.poll k).1.events rest

/-- The entries of some polls, in order. -/
def recorded (past : List Event) : List Entry := past.flatMap fun e => e.entries.toList

/-- The report of a poll that has finished its cell, with the number of the cell. -/
def Event.report? (e : Event) : Option (Nat × CellReport) :=
  match e.verdict with
  | .finished report => some (e.cell, report)
  | _ => none

/-- The reports of the cells that have finished, with their numbers. -/
def reports (past : List Event) : List (Nat × CellReport) := past.filterMap Event.report?

/-- A run of a mesh with so many links that has kept its accounts, with what its polls have done so
far. -/
structure Balanced (r : Run) (links : Nat) (past : List Event) : Prop where
  links : r.fabric.links.size = links
  frames : r.fabric.stats.sent = r.fabric.stats.received + r.fabric.queued
  early : r.fabric.stats.early =
    Entry.promotions (recorded past) + r.tally fun w => w.cell.slots
  credited : r.fabric.stats.early =
    ((reports past).map fun p => p.2.early).sum + r.tally Worker.credit
  nodup : ((reports past).map Prod.fst).Nodup
  reported : ∀ k, k ∈ (reports past).map Prod.fst ↔ k < r.workers.size ∧ r.worker? k = none

variable {r : Run} {k : Nat} {w : Worker} {g : Geometry} {S : Nat} {b : Border} {N : UInt32}
  {ends : Nat → Ends} {links : Nat} {past : List Event}

/-- What polls have promoted after one more of them. -/
theorem promotions_concat (past : List Event) (e : Event) :
    Entry.promotions (recorded (past ++ [e])) =
      Entry.promotions (recorded past) + Entry.promotions e.entries.toList := by
  rw [recorded, List.flatMap_append, List.flatMap_singleton, Entry.promotions, Entry.acts_append,
    List.countP_append]
  rfl

/-- The reports after one more poll. -/
theorem reports_concat (past : List Event) (e : Event) :
    reports (past ++ [e]) = reports past ++ e.report?.toList := by
  rw [reports, List.filterMap_append]
  cases he : e.report? with
  | none => rw [List.filterMap_cons_none he]; rfl
  | some report => rw [List.filterMap_cons_some he]; rfl

/-- The accounts after a worker has been replaced, or has gone with a report: what the counters have
grown by is accounted for by the worker and its report. -/
theorem Balanced.replace (h : r.Balanced links past) (hw : r.worker? k = some w)
    {v : Option Worker} {f : Fabric} (words : Array ResultWord) {e : Event}
    (hlinks : f.links.size = links) (hframes : f.stats.sent = f.stats.received + f.queued)
    (hearly : f.stats.early + w.cell.slots = r.fabric.stats.early +
      Entry.promotions e.entries.toList + v.elim 0 fun w => w.cell.slots)
    (hcredited : f.stats.early + w.credit = r.fabric.stats.early +
      (e.report?.elim 0 fun p => p.2.early) + v.elim 0 Worker.credit)
    (hreport : e.report? = none ∧ v.isSome = true ∨
      ∃ report, e.report? = some (k, report) ∧ v = none) :
    Balanced ⟨f, r.workers.setIfInBounds k v, words⟩ links (past ++ [e]) := by
  have hk := lt_of_worker? hw
  have hnot : k ∉ (reports past).map Prod.fst := by
    intro hin
    exact nomatch ((h.reported k).1 hin).2.symm.trans hw
  refine ⟨hlinks, hframes, ?_, ?_, ?_, fun j => ?_⟩
  · have hslots := tally_set hw v f words fun w => w.cell.slots
    have hbefore := h.early
    rw [promotions_concat]
    dsimp only
    omega
  · have hcredits := tally_set hw v f words Worker.credit
    have hbefore := h.credited
    have hsum : ((reports (past ++ [e])).map fun p => p.2.early).sum =
        ((reports past).map fun p => p.2.early).sum + e.report?.elim 0 fun p => p.2.early := by
      rw [reports_concat, List.map_append, List.sum_append]
      cases e.report? <;> rfl
    rw [hsum]
    dsimp only
    omega
  · rw [reports_concat, List.map_append]
    rcases hreport with ⟨hnone, -⟩ | ⟨report, hsome, -⟩
    · rw [hnone, Option.toList_none, List.map_nil, List.append_nil]
      exact h.nodup
    · rw [hsome, Option.toList_some, List.map_singleton]
      exact List.concat_eq_append ▸ h.nodup.concat hnot
  · rw [reports_concat, List.map_append, List.mem_append, h.reported, worker?_set hk,
      Array.size_setIfInBounds]
    by_cases hj : j = k
    · subst hj
      rw [if_pos rfl, hw]
      rcases hreport with ⟨hnone, hv⟩ | ⟨report, hsome, rfl⟩
      · rw [hnone]
        obtain ⟨u, rfl⟩ := Option.isSome_iff_exists.1 hv
        simp
      · rw [hsome]
        simp [hk]
    · rw [if_neg hj]
      rcases hreport with ⟨hnone, -⟩ | ⟨report, hsome, -⟩
      · rw [hnone]
        simp
      · rw [hsome]
        simp [hj]

/-- **A poll keeps the accounts of a run.** A worker that finishes leaves with empty slots, and with
empty links toward its cell. -/
theorem Balanced.poll (h : r.Balanced links past) (hkeeps : r.Keeps g S b N ends) (k : Nat) :
    (r.poll k).1.Balanced links (past ++ (r.poll k).2.toList) := by
  cases hw : r.worker? k with
  | none =>
    rw [poll_of_absent hw]
    exact (List.append_nil past).symm ▸ h
  | some w =>
    have hstation : w.cell.peer.ends = ends k := (hkeeps.concord.station (crew_of_worker hw)).1
    obtain ⟨hsettles, hcredit⟩ := w.settles_poll (f := r.fabric)
      (hstation ▸ hkeeps.concord.apart k)
    obtain ⟨n, hadvanced⟩ := hkeeps.advanced hw
    have hframes := h.frames
    have hqueued := hsettles.queued
    have hslots := hsettles.slots
    have hstats := hsettles.stats
    rcases hadvanced.verdict with ⟨hwaiting, -⟩ | ⟨hfinished, hall, hidle⟩
    · have hcredit := hcredit (by simp [hwaiting])
      rw [poll_of_waiting hw hwaiting]
      refine h.replace hw r.words (hsettles.size.trans h.links) ?_ ?_ ?_ (.inl ⟨rfl, rfl⟩)
      · simp only [hstats, Stats.after]
        omega
      · simp only [hstats, Stats.after, Option.elim_some, Entry.promotions]
        omega
      · simp only [hstats, Stats.after, Option.elim_some, Event.report?, Option.elim_none]
        omega
    · have hcredit := hcredit (by simp [hfinished])
      have hself : Function.update (r.crew N) k (some ((w.poll r.fabric).worker.cell.station n)) k =
          some ((w.poll r.fabric).worker.cell.station n) := Function.update_self ..
      have hempty : (w.poll r.fabric).worker.cell.slots = 0 := hadvanced.concord.slots_eq_zero hself
        hidle hall
      have hcomplete : (w.poll r.fabric).worker.cell.earlySoFar = 0 := by
        rw [Cell.earlySoFar, hidle]
        rfl
      have hloads : ∀ d i, (w.poll r.fabric).worker.cell.peer.ends.inbound.get d = some i →
          (w.poll r.fabric).fabric.load (some i) = 0 := by
        rw [hsettles.ends, hstation]
        exact fun d i => hadvanced.concord.load_of_done hself hidle hall
      have hacts : Entry.acts ((w.poll r.fabric).entries.push
          (.finished (w.poll r.fabric).worker.cell.id w.iterations)).toList =
          Entry.acts (w.poll r.fabric).entries.toList := by
        rw [Array.toList_push, Entry.acts_append]
        exact List.append_nil _
      rw [poll_of_finished hw hfinished]
      refine h.replace hw _ ((Fabric.size_release hloads).trans (hsettles.size.trans h.links)) ?_ ?_ ?_
        (.inr ⟨_, rfl, rfl⟩)
      · simp only [Fabric.stats_release, Fabric.queued_release hloads, hstats, Stats.after]
        omega
      · rw [← hacts] at hslots hstats
        simp only [Fabric.stats_release, hstats, Stats.after, Option.elim_none, Entry.promotions]
        omega
      · simp only [Fabric.stats_release, hstats, Stats.after, Option.elim_none, Event.report?,
          Option.elim_some, Worker.credit] at hcredit ⊢
        omega

/-- **Every schedule keeps the accounts of a run.** -/
theorem Balanced.after (h : r.Balanced links past) (hkeeps : r.Keeps g S b N ends)
    (schedule : List Nat) :
    (r.after schedule).Balanced links (past ++ r.events schedule) := by
  induction schedule generalizing r past with
  | nil =>
    rw [events, List.append_nil]
    exact h
  | cons k rest ih =>
    rw [events, ← List.append_assoc]
    exact ih (h.poll hkeeps k) (hkeeps.poll k)

/-! ### From the first poll to the last -/

variable {m : Mesh} {capacity : UInt64}

/-- A count over workers none of which is left. -/
theorem tally_of_done (h : ∀ k, r.worker? k = none) (f : Worker → Nat) : r.tally f = 0 := by
  refine List.sum_eq_zero fun n hn => ?_
  obtain ⟨k, -, rfl⟩ := List.mem_map.1 hn
  rw [h k, Option.elim_none]

/-- A count over the workers of a mesh about to run. -/
theorem tally_ofMesh (h : m.Outset S b capacity ends) (N : UInt32) (f : Worker → Nat) :
    (ofMesh m N).tally f = ((List.range m.geometry.cells.toNat).map fun k =>
      f (.ofCell (m.geometry.outsetCell S b ends k) N)).sum := by
  rw [tally, (keeps_of_outset h N).size]
  refine congrArg List.sum (List.map_congr_left fun k hk => ?_)
  rw [worker?_ofMesh, h.cells, if_pos (List.mem_range.1 hk)]
  rfl

/-- **What a run has to do**: in each iteration every cell sends to each neighbor and hears from
it. -/
theorem toCome_ofMesh (h : m.Outset S b capacity ends) (N : UInt32) :
    (ofMesh m N).toCome N =
      2 * N.toNat * (4 * m.geometry.span * (m.geometry.span - 1)) + (ofMesh m N).pending := by
  have hterm : ∀ k ∈ List.range m.geometry.cells.toNat,
      ((m.geometry.outsetCell S b ends k).station (N.toNat - N.toNat)).toCome N.toNat + 1 =
        2 * N.toNat * m.geometry.degree k + 1 := by
    intro k hk
    have hworker := worker?_ofMesh m N k
    rw [h.cells, if_pos (List.mem_range.1 hk), Option.map_some] at hworker
    have hsound := ((keeps_of_outset h N).concord.station (crew_of_worker hworker)).2
    exact congrArg (· + 1) (hsound.toCome_of_fresh rfl (Nat.sub_self _) (Compass.get_const none) _)
  rw [pending_eq, toCome, tally_ofMesh h, tally_ofMesh h, ← Geometry.sum_degree,
    ← List.sum_map_mul_left, ← List.sum_map_add]
  exact congrArg List.sum (List.map_congr_left hterm)

/-- **A mesh about to run has its accounts in balance.** -/
theorem balanced_ofMesh (h : m.Outset S b capacity ends) (N : UInt32) :
    (ofMesh m N).Balanced m.fabric.links.size [] := by
  have hzero : ∀ {f : Worker → Nat},
      (∀ k, f (.ofCell (m.geometry.outsetCell S b ends k) N) = 0) → (ofMesh m N).tally f = 0 := by
    intro f hf
    rw [tally_ofMesh h]
    refine List.sum_eq_zero fun n hn => ?_
    obtain ⟨k, -, rfl⟩ := List.mem_map.1 hn
    exact hf k
  refine ⟨rfl, (Mesh.balanced_of_outset h).frames, ?_, ?_, List.nodup_nil, fun k => ?_⟩
  · rw [hzero fun k => rfl]
    exact congrArg Stats.early h.stats
  · rw [hzero fun k => rfl]
    exact congrArg Stats.early h.stats
  · rw [worker?_ofMesh, h.cells, (keeps_of_outset h N).size]
    constructor
    · intro hk
      cases hk
    · rintro ⟨hk, hnone⟩
      rw [if_pos hk] at hnone
      cases hnone

end Run

/-- **Frame conservation.** Whatever polls and cancelled steps a mesh has been through, the frames
sent are those received and those on their way, and the edges that came early are those promoted and
those in slots. A mesh of side `L` that has run its `N` iterations, under whatever schedule, has sent
and received `4 L (L - 1) N` frames; the reports of its cells, one of each, name the edges that came
early, and every one of them has been promoted. -/
theorem Mesh.frames_conserved {c : Config} {m : Mesh} (h : assemble c = .ok m) :
    (∀ actions : List Action,
      let done := m.perform actions
      done.1.fabric.stats.sent = done.1.fabric.stats.received + done.1.fabric.queued ∧
      done.1.fabric.stats.early = Entry.promotions done.2 + done.1.slots) ∧
    ∀ (N : UInt32) (schedule : List Nat),
      let r := (Run.ofMesh m N).after schedule
      let events := (Run.ofMesh m N).events schedule
      let L := m.geometry.side.toNat
      (∀ k, r.worker? k = none) →
        r.fabric.stats.sent = 4 * L * (L - 1) * N.toNat ∧
        r.fabric.stats.received = 4 * L * (L - 1) * N.toNat ∧
        ((Run.reports events).map Prod.fst).Perm (List.range m.geometry.cells.toNat) ∧
        ((Run.reports events).map fun p => p.2.early).sum = r.fabric.stats.early ∧
        Entry.promotions (Run.recorded events) = r.fabric.stats.early := by
  obtain ⟨-, ends, houtset⟩ := assembled h
  refine ⟨fun actions => ?_, fun N schedule => ?_⟩
  · have hbalanced := (balanced_of_outset houtset).perform actions
    exact ⟨hbalanced.frames, hbalanced.early⟩
  intro r events L hdone
  have hinitial := Run.keeps_of_outset houtset N
  have hkeeps : r.Keeps m.geometry c.edgeLength.toNat c.border N ends := hinitial.after schedule
  have hbalanced : r.Balanced m.fabric.links.size events :=
    (Run.balanced_ofMesh houtset N).after hinitial schedule
  have hqueued : r.fabric.queued = 0 := hkeeps.concord.queued_of_done
    (fun k => by rw [Run.crew, hdone k]; rfl) fun hn => houtset.owned (hbalanced.links ▸ hn)
  have hmoved : r.moved = 2 * (4 * L * (L - 1) * N.toNat) := by
    have hbalance : r.toCome N + r.moved + (Run.ofMesh m N).pending =
        (Run.ofMesh m N).toCome N + (Run.ofMesh m N).moved + r.pending :=
      hinitial.balance_after schedule
    have hnone : r.toCome N = 0 := Run.tally_of_done hdone _
    have hpending : r.pending = 0 := (Run.pending_eq r).trans (Run.tally_of_done hdone _)
    have hfresh : (Run.ofMesh m N).moved = 0 := by
      rw [Run.moved, Run.ofMesh, houtset.stats]
      rfl
    rw [Run.toCome_ofMesh houtset, hnone, hpending, hfresh, ← m.geometry.side_toNat,
      Nat.mul_assoc, Nat.mul_comm N.toNat] at hbalance
    change _ = 2 * (4 * m.geometry.side.toNat * (m.geometry.side.toNat - 1) * N.toNat)
    omega
  have hframes := hbalanced.frames
  rw [hqueued] at hframes
  rw [Run.moved] at hmoved
  have hearly := hbalanced.early
  have hcredited := hbalanced.credited
  rw [Run.tally_of_done hdone] at hearly hcredited
  refine ⟨by omega, by omega, ?_, hcredited.symm, hearly.symm⟩
  refine (List.perm_ext_iff_of_nodup hbalanced.nodup List.nodup_range).2 fun k => ?_
  rw [hbalanced.reported, hkeeps.size, List.mem_range]
  exact and_iff_left (hdone k)

/-- Four cells that have run `N` iterations have exchanged `8 N` frames. -/
theorem Mesh.frames_conserved_square : ∃ m, assemble { cells := 4, messageWords := 3 } = .ok m ∧
    ∀ N : UInt32, ∃ schedule, (∀ k, ((Run.ofMesh m N).after schedule).worker? k = none) ∧
      ((Run.ofMesh m N).after schedule).fabric.stats.sent = 8 * N.toNat ∧
      ((Run.ofMesh m N).after schedule).fabric.stats.received = 8 * N.toNat := by
  obtain ⟨m, hm⟩ : ∃ m, assemble { cells := 4, messageWords := 3 } = .ok m := ⟨_, rfl⟩
  have hside : m.geometry.side.toNat = 2 := by
    have hgeometry : m.geometry = ⟨4, 1, rfl⟩ := (Except.ok.inj (assembled hm).1).symm
    rw [hgeometry]
    rfl
  refine ⟨m, hm, fun N => ?_⟩
  obtain ⟨schedule, hdone⟩ := Run.exists_done hm N
  obtain ⟨hsent, hreceived, -⟩ := (frames_conserved hm).2 N schedule hdone
  rw [hside] at hsent hreceived
  exact ⟨schedule, hdone, hsent, hreceived⟩

end DiffusionMesh

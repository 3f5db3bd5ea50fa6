/-
# A run that settles is over

A run is settled by its schedule and then by sweeps over all workers, until a sweep neither moves a
frame nor finishes a cell, at most as often as a limit says. As long as a cell is unfinished, a
sweep visits a worker that gets on, so it moves a frame or finishes a cell; and the limit exceeds
what is left of the run:

```
   what is left ≤ 2 · links · N + workers
```

since each link takes `N` frames and gives `N`. So a settled run is one whose schedule has been made
longer until all cells are finished.

Main statements: `Keeps.toCome_le_links` and `Keeps.settle`.
-/

import DiffusionMesh.Proofs.Mesh.Progress
import Mathlib.Algebra.Group.Action.Defs
import Mathlib.Algebra.Order.BigOperators.Group.List
import Mathlib.Algebra.Order.Ring.Nat
import Mathlib.Data.List.Perm.Subperm

namespace DiffusionMesh

/-- The links that lead away from some cells. -/
def Plan.outgoing (P : Plan) (ends : Nat → Ends) (k : Nat) : List (Option Nat) :=
  (Direction.all.filter fun d => (P.mate k d).isSome).map (ends k).outbound.get

/-- **There are no more ports to send on than links.** -/
theorem Concord.length_outgoing_le {P : Plan} {ends : Nat → Ends} {f : Fabric} {crew : Crew}
    (h : Concord P ends f crew) (n : Nat) :
    ((List.range n).flatMap (P.outgoing ends)).length ≤ f.links.size := by
  have hport : ∀ {k d}, d ∈ Direction.all.filter (fun d => (P.mate k d).isSome) →
      ∃ i, (ends k).outbound.get d = some i ∧ i < f.links.size := by
    intro k d hd
    obtain ⟨j, hj⟩ := Option.isSome_iff_exists.1 (List.mem_filter.1 hd).2
    obtain ⟨i, l, hi, hl, -⟩ := h.link hj
    exact ⟨i, hi, (Array.getElem?_eq_some_iff.1 hl).1⟩
  have hnodup : ((List.range n).flatMap (P.outgoing ends)).Nodup := by
    rw [List.nodup_flatMap]
    refine ⟨fun k _ => ?_, List.nodup_range.imp fun {a b} hab => ?_⟩
    · refine List.Nodup.map_on (fun d hd e he hde => ?_) (List.Nodup.filter _ (by decide))
      obtain ⟨i, hi, -⟩ := hport hd
      exact (h.wired.injective hi (hde ▸ hi)).2
    · rintro v ha hb
      obtain ⟨d, hd, rfl⟩ := List.mem_map.1 ha
      obtain ⟨e, he, hde⟩ := List.mem_map.1 hb
      obtain ⟨i, hi, -⟩ := hport hd
      exact hab (h.wired.injective hi (hde.trans hi)).1
  have hsub : (List.range n).flatMap (P.outgoing ends) ⊆ (List.range f.links.size).map some := by
    intro v hv
    obtain ⟨k, -, hv⟩ := List.mem_flatMap.1 hv
    obtain ⟨d, hd, rfl⟩ := List.mem_map.1 hv
    obtain ⟨i, hi, hlt⟩ := hport hd
    exact List.mem_map.2 ⟨i, List.mem_range.2 hlt, hi.symm⟩
  have hle := (hnodup.subperm hsub).length_le
  rwa [List.length_map, List.length_range] at hle

/-- A sound station has at most two frames to come for each port and iteration. -/
theorem Station.Sound.toCome_le {P : Plan} {i : Nat} {x : Station} (h : x.Sound P i)
    (ends : Nat → Ends) (n : Nat) : x.toCome n ≤ 2 * n * (P.outgoing ends i).length := by
  have hle := List.sum_le_card_nsmul
    (x.peer.exchange.sendOrder.map fun d => (n - x.sentOn d) + (n - x.takenOn d)) (2 * n) (by
      intro m hm
      obtain ⟨d, -, rfl⟩ := List.mem_map.1 hm
      omega)
  rw [List.length_map, smul_eq_mul, h.sendOrder] at hle
  rw [toCome, h.sendOrder, Plan.outgoing, List.length_map, Nat.mul_comm (2 * n)]
  exact hle

namespace Run

variable {r : Run} {k : Nat} {w : Worker} {g : Geometry} {S : Nat} {b : Border} {N : UInt32}
  {ends : Nat → Ends}

/-- **What is left is bounded by the links and the workers.** -/
theorem Keeps.toCome_le_links (h : r.Keeps g S b N ends) :
    r.toCome N ≤ 2 * r.fabric.links.size * N.toNat + r.workers.size := by
  have hterms : ∀ n, ((List.range n).map fun k => (r.worker? k).elim 0 fun w =>
      (w.cell.station (N.toNat - w.left)).toCome N.toNat + 1).sum ≤
      2 * N.toNat * ((List.range n).flatMap ((g.plan S b N.toNat).outgoing ends)).length + n := by
    intro n
    induction n with
    | zero => exact Nat.zero_le _
    | succ n ih =>
      have hterm : ((r.worker? n).elim 0 fun w =>
          (w.cell.station (N.toNat - w.left)).toCome N.toNat + 1) ≤
          2 * N.toNat * ((g.plan S b N.toNat).outgoing ends n).length + 1 := by
        cases hw : r.worker? n with
        | none => exact Nat.zero_le _
        | some w =>
          exact Nat.succ_le_succ ((h.concord.station (crew_of_worker hw)).2.toCome_le ends _)
      rw [List.range_succ, List.map_append, List.sum_append, List.flatMap_append,
        List.length_append, Nat.mul_add, List.map_singleton, List.sum_singleton,
        List.flatMap_singleton]
      omega
  have hports := Nat.mul_le_mul_left (2 * N.toNat)
    (h.concord.length_outgoing_le r.workers.size)
  have hsum := hterms r.workers.size
  rw [Nat.mul_right_comm]
  exact Nat.le_trans hsum (Nat.add_le_add_right hports _)

/-- A worker has no more iterations left than the one with most of them. -/
theorem left_le_longest (hw : r.worker? k = some w) : w.left ≤ r.longest := by
  have hfold : ∀ (vs : List (Option Worker)) (most : Nat),
      most ≤ vs.foldl (fun most v => max most (v.elim 0 Worker.left)) most ∧
      ∀ v ∈ vs, v.elim 0 Worker.left ≤
        vs.foldl (fun most v => max most (v.elim 0 Worker.left)) most := by
    intro vs
    induction vs with
    | nil => exact fun most => ⟨Nat.le_refl _, fun v hv => absurd hv List.not_mem_nil⟩
    | cons v vs ih =>
      intro most
      obtain ⟨hle, hall⟩ := ih (max most (v.elim 0 Worker.left))
      exact ⟨Nat.le_trans (Nat.le_max_left _ _) hle,
        List.forall_mem_cons.2 ⟨Nat.le_trans (Nat.le_max_right _ _) hle, hall⟩⟩
  rw [longest, ← Array.foldl_toList]
  exact (hfold r.workers.toList 0).2 (some w)
    (Array.mem_toList_iff.2 (Array.mem_of_getElem? (Option.join_eq_some_iff.1 hw)))

/-! ### Sweeps -/

/-- The frames that a run has moved so far. -/
def moved (r : Run) : Nat := r.fabric.stats.sent + r.fabric.stats.received

/-- The unfinished workers, one by one. -/
theorem pending_eq (r : Run) : r.pending = r.tally fun _ => 1 := by
  have hsum : ∀ vs : List (Option Worker),
      (vs.filter Option.isSome).length = (vs.map fun v => v.elim 0 fun _ => 1).sum := by
    intro vs
    induction vs with
    | nil => rfl
    | cons v vs ih =>
      cases v with
      | none => rw [List.filter_cons_of_neg (by decide), List.map_cons, List.sum_cons, ih,
          Option.elim_none, Nat.zero_add]
      | some w => rw [List.filter_cons_of_pos rfl, List.map_cons, List.sum_cons, ← ih,
          List.length_cons, Option.elim_some, Nat.add_comm]
  have hterms : (List.range r.workers.size).map (fun k => (r.worker? k).elim 0 fun _ => 1) =
      r.workers.toList.map fun v => v.elim 0 fun _ => 1 := by
    refine List.ext_getElem (by simp) fun k hk hk' => ?_
    rw [List.length_map, Array.length_toList] at hk'
    simp only [List.getElem_map, List.getElem_range, worker?, Array.getElem?_eq_getElem hk',
      Array.getElem_toList]
    rfl
  rw [tally, hterms, ← hsum, pending, ← Array.length_toList, Array.toList_filter]

/-- **What is left, what has been moved and who is unfinished** belong together. -/
theorem Keeps.balance_poll (h : r.Keeps g S b N ends) (k : Nat) :
    (r.poll k).1.toCome N + (r.poll k).1.moved + r.pending =
      r.toCome N + r.moved + (r.poll k).1.pending := by
  cases hw : r.worker? k with
  | none => rw [poll_of_absent hw]
  | some w =>
    obtain ⟨n, hadvanced⟩ := h.advanced hw
    have hcounted := hadvanced.counted
    rw [pending_eq, pending_eq, moved, moved]
    rcases h.toCome_poll hw with ⟨hwaiting, htoCome⟩ | ⟨hfinished, htoCome⟩
    · have hpending := tally_poll_of_waiting hw hwaiting fun _ => 1
      have hstats : (r.poll k).1.fabric.stats = (w.poll r.fabric).fabric.stats := by
        rw [poll_of_waiting hw hwaiting]
      rw [hstats]
      omega
    · have hpending := tally_poll_of_finished hw hfinished fun _ => 1
      have hstats : (r.poll k).1.fabric.stats = (w.poll r.fabric).fabric.stats := by
        rw [poll_of_finished hw hfinished]
        exact Fabric.stats_release _ _
      rw [hstats]
      omega

theorem Keeps.balance_after (h : r.Keeps g S b N ends) (schedule : List Nat) :
    (r.after schedule).toCome N + (r.after schedule).moved + r.pending =
      r.toCome N + r.moved + (r.after schedule).pending := by
  induction schedule generalizing r with
  | nil => rfl
  | cons k rest ih =>
    have hrest := ih (h.poll k)
    have hpoll := h.balance_poll k
    change ((r.poll k).1.after rest).toCome N + ((r.poll k).1.after rest).moved + r.pending =
      r.toCome N + r.moved + ((r.poll k).1.after rest).pending
    omega

section

variable {σ : Type} (observe : σ → Event → σ)

theorem pollAll_snd (schedule : List Nat) (seen : σ) (r : Run) :
    (pollAll observe schedule seen r).2 = r.after schedule := by
  induction schedule generalizing seen r with
  | nil => rfl
  | cons k rest ih => exact ih _ _

theorem pollAll_append (first second : List Nat) (seen : σ) (r : Run) :
    pollAll observe (first ++ second) seen r =
      pollAll observe second (pollAll observe first seen r).1 (r.after first) := by
  induction first generalizing seen r with
  | nil => rfl
  | cons k rest ih => exact ih _ _

/-- Nothing happens once all cells are finished. -/
theorem after_of_done (h : ∀ k, r.worker? k = none) (schedule : List Nat) :
    r.after schedule = r := by
  induction schedule with
  | nil => rfl
  | cons k rest ih =>
    change (r.poll k).1.after rest = r
    rw [poll_of_absent (h k)]
    exact ih

/-- **Sweeps finish all cells**, as if the workers had been polled by a longer schedule. -/
theorem Keeps.sweeps (h : r.Keeps g S b N ends) {limit : Nat} (hlimit : r.toCome N < limit)
    (seen : σ) : ∃ more, Run.sweeps observe limit seen r = pollAll observe more seen r ∧
      ∀ k, (r.after more).worker? k = none := by
  induction limit generalizing r seen with
  | zero => exact absurd hlimit (Nat.not_lt_zero _)
  | succ limit ih =>
    have hsnd := pollAll_snd observe (List.range r.workers.size) seen r
    by_cases hdone : ∀ k, r.worker? k = none
    · -- a sweep over finished workers changes nothing, so it is the last one
      have hafter := after_of_done hdone (List.range r.workers.size)
      refine ⟨List.range r.workers.size, ?_, fun k => ?_⟩
      · rw [Run.sweeps]
        dsimp only
        rw [hsnd, hafter, if_neg (by simp)]
        exact Prod.ext rfl (hsnd.trans hafter).symm
      · rw [hafter]
        exact hdone k
    · obtain ⟨k, hk⟩ := Classical.not_forall.1 hdone
      obtain ⟨w, hw⟩ := Option.ne_none_iff_exists'.1 hk
      obtain ⟨j, hj⟩ := h.exists_advances hw
      have hjlt : j < r.workers.size := by
        cases hv : r.worker? j with
        | none => exact absurd hj (not_advances_of_absent hv)
        | some v => exact lt_of_worker? hv
      have hlt := h.toCome_after_lt hj (List.mem_range.2 hjlt)
      have hbalance := h.balance_after (List.range r.workers.size)
      have hcontinue : (decide ((r.after (List.range r.workers.size)).pending < r.pending) ||
          (r.after (List.range r.workers.size)).fabric.stats != r.fabric.stats) = true := by
        rw [Bool.or_eq_true, decide_eq_true_iff, bne_iff_ne]
        by_cases hstats : (r.after (List.range r.workers.size)).fabric.stats = r.fabric.stats
        · left
          rw [moved, moved, hstats] at hbalance
          omega
        · exact .inr hstats
      obtain ⟨more, hmore, hfinished⟩ := ih (h.after _) (Nat.lt_of_lt_of_le hlt
        (Nat.le_of_lt_succ hlimit)) (pollAll observe (List.range r.workers.size) seen r).1
      refine ⟨List.range r.workers.size ++ more, ?_, fun k => ?_⟩
      · rw [Run.sweeps, pollAll_append, ← hmore]
        dsimp only
        rw [hsnd, if_pos hcontinue]
      · rw [after_append]
        exact hfinished k

/-- **A run that settles is over**: its schedule has been made longer until all cells are
finished. -/
theorem Keeps.settle (h : r.Keeps g S b N ends) (hlongest : N.toNat ≤ r.longest)
    (schedule : List Nat) (seen : σ) : ∃ more,
      r.settle observe schedule seen = pollAll observe (schedule ++ more) seen r ∧
      ∀ k, (r.after (schedule ++ more)).worker? k = none := by
  have hbound := h.toCome_le_links
  have hmul := Nat.mul_le_mul_left (2 * r.fabric.links.size) hlongest
  have hle := h.toCome_after_le schedule
  have hlimit : (r.after schedule).toCome N <
      2 * r.fabric.links.size * r.longest + r.workers.size + 1 := by omega
  obtain ⟨more, hmore, hfinished⟩ :=
    (h.after schedule).sweeps observe hlimit (pollAll observe schedule seen r).1
  refine ⟨more, ?_, fun k => ?_⟩
  · rw [Run.settle, pollAll_append, ← hmore]
    dsimp only
    rw [pollAll_snd]
  · rw [after_append]
    exact hfinished k

end

end Run
end DiffusionMesh

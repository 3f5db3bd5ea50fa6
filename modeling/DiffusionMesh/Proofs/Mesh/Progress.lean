/-
# No deadlock

What is left of a run is measured by the frames that its cells have still to send and to take, and
by its unfinished cells. A poll gets on if it sends a frame, takes one or finishes its cell.

| poll | what is left |
| --- | --- |
| gets on | less, by what it has sent, taken and finished |
| does not | as much; links and all other workers are as before |

As long as a cell is unfinished, some worker gets on when it is polled, and it still does after any
number of polls that do not get on. So whoever keeps polling all unfinished cells comes to an end.

Main statements: `Keeps.exists_advances`, `Keeps.toCome_poll`, and `finishes`.
-/

import DiffusionMesh.Proofs.Mesh.Runs

namespace DiffusionMesh
namespace Run

/-- A poll that has sent or taken a frame or finished its cell. -/
def Event.GetsOn (e : Event) : Prop :=
  (∃ entry ∈ e.entries, entry.moves = true) ∨ ∃ report, e.verdict = .finished report

/-- Whether a worker gets on when it is polled. -/
def Advances (r : Run) (k : Nat) : Prop := ∃ event, (r.poll k).2 = some event ∧ event.GetsOn

/-- The sum of a count over the workers that are not through. -/
def tally (r : Run) (f : Worker → Nat) : Nat :=
  ((List.range r.workers.size).map fun k => (r.worker? k).elim 0 f).sum

/-- What is left of a run: the frames still to be sent and to be taken, and the unfinished cells. -/
def toCome (r : Run) (N : UInt32) : Nat :=
  r.tally fun w => (w.cell.station (N.toNat - w.left)).toCome N.toNat + 1

variable {r : Run} {k : Nat} {w : Worker} {g : Geometry} {S : Nat} {b : Border} {N : UInt32}
  {ends : Nat → Ends}

/-- The sum after a worker has been replaced. -/
theorem tally_set (hw : r.worker? k = some w) (v : Option Worker) (fabric : Fabric)
    (words : Array ResultWord) (f : Worker → Nat) :
    tally ⟨fabric, r.workers.setIfInBounds k v, words⟩ f + f w = r.tally f + v.elim 0 f :=
  sum_setIfInBounds hw v f

/-- The sum after a poll of a worker that waits. -/
theorem tally_poll_of_waiting (hw : r.worker? k = some w)
    (hp : (w.poll r.fabric).verdict = .waiting) (f : Worker → Nat) :
    (r.poll k).1.tally f + f w = r.tally f + f (w.poll r.fabric).worker := by
  rw [poll_of_waiting hw hp]
  exact tally_set hw (some _) _ _ f

/-- The sum after a poll of a worker that finishes. -/
theorem tally_poll_of_finished (hw : r.worker? k = some w)
    (hp : (w.poll r.fabric).verdict = .finished ()) (f : Worker → Nat) :
    (r.poll k).1.tally f + f w = r.tally f := by
  rw [poll_of_finished hw hp]
  exact tally_set hw none _ _ f

theorem moved_pos_iff (entries : Array Entry) :
    0 < Entry.moved entries ↔ ∃ entry ∈ entries, entry.moves = true := by
  simp only [Entry.moved, List.countP_pos_iff, Array.mem_toList_iff]

/-- A worker gets on when its poll moves a frame or finishes. -/
theorem advances_iff (hw : r.worker? k = some w) :
    r.Advances k ↔ 0 < Entry.moved (w.poll r.fabric).entries ∨
      (w.poll r.fabric).verdict = .finished () := by
  rw [moved_pos_iff]
  cases hp : (w.poll r.fabric).verdict with
  | waiting =>
    simp only [Advances, poll_of_waiting hw hp, Event.GetsOn, Option.some.injEq, exists_eq_left',
      reduceCtorEq, exists_false]
  | finished =>
    simp only [Advances, poll_of_finished hw hp, Event.GetsOn, Option.some.injEq, exists_eq_left',
      or_true]
    exact iff_of_true (.inr ⟨_, rfl⟩) trivial
  | failed cause =>
    rw [worker?] at hw
    simp only [Advances, poll, hw, hp, Event.GetsOn, Option.some.injEq, exists_eq_left',
      reduceCtorEq, exists_false]

theorem not_advances_of_absent (h : r.worker? k = none) : ¬ r.Advances k := by
  rintro ⟨event, hevent, -⟩
  rw [poll_of_absent h] at hevent
  cases hevent

/-- Whether a worker gets on depends on it and on the links alone. -/
theorem Advances.congr {r' : Run} (h : r.Advances k) (hfabric : r'.fabric = r.fabric)
    (hworker : r'.worker? k = r.worker? k) : r'.Advances k := by
  cases hw : r.worker? k with
  | none => exact absurd h (not_advances_of_absent hw)
  | some w =>
    rw [advances_iff (hworker.trans hw), hfabric]
    exact (advances_iff hw).1 h

/-! ### One poll -/

/-- **A poll lowers what is left** by what it has moved, and by one if it finishes. -/
theorem Keeps.toCome_poll (h : r.Keeps g S b N ends) (hw : r.worker? k = some w) :
    ((w.poll r.fabric).verdict = .waiting ∧
      (r.poll k).1.toCome N + Entry.moved (w.poll r.fabric).entries = r.toCome N) ∨
    ((w.poll r.fabric).verdict = .finished () ∧
      (r.poll k).1.toCome N + Entry.moved (w.poll r.fabric).entries + 1 = r.toCome N) := by
  obtain ⟨n, hadvanced⟩ := h.advanced hw
  have htoCome := hadvanced.toCome
  have hleft := hadvanced.left
  have hn : N.toNat - (w.poll r.fabric).worker.left = n := by omega
  rcases hadvanced.verdict with ⟨hwaiting, -⟩ | ⟨hfinished, hall, hidle⟩
  · have htally := tally_poll_of_waiting hw hwaiting
      fun w => (w.cell.station (N.toNat - w.left)).toCome N.toNat + 1
    rw [hn] at htally
    refine .inl ⟨hwaiting, ?_⟩
    rw [Run.toCome, Run.toCome]
    omega
  · have htally := tally_poll_of_finished hw hfinished
      fun w => (w.cell.station (N.toNat - w.left)).toCome N.toNat + 1
    have hzero : ((w.poll r.fabric).worker.cell.station n).toCome N.toNat = 0 :=
      Station.toCome_of_done hidle hall
    refine .inr ⟨hfinished, ?_⟩
    rw [Run.toCome, Run.toCome]
    omega

theorem Keeps.toCome_le (h : r.Keeps g S b N ends) (k : Nat) :
    (r.poll k).1.toCome N ≤ r.toCome N := by
  cases hw : r.worker? k with
  | none =>
    simp only [poll_of_absent hw, Nat.le_refl]
  | some w =>
    rcases h.toCome_poll hw with ⟨-, heq⟩ | ⟨-, hle⟩
    · omega
    · omega

/-- **A poll that gets on leaves less.** -/
theorem Keeps.toCome_lt (h : r.Keeps g S b N ends) (hk : r.Advances k) :
    (r.poll k).1.toCome N < r.toCome N := by
  cases hw : r.worker? k with
  | none => exact absurd hk (not_advances_of_absent hw)
  | some w =>
    have hgets := (advances_iff hw).1 hk
    rcases h.toCome_poll hw with ⟨hwaiting, heq⟩ | ⟨-, hle⟩
    · rcases hgets with hmoved | hfinished
      · omega
      · exact nomatch hwaiting.symm.trans hfinished
    · omega

/-- **A poll that does not get on** leaves the links and all other workers as they were. -/
theorem Keeps.still (h : r.Keeps g S b N ends) (hk : ¬ r.Advances k) :
    (r.poll k).1.fabric = r.fabric ∧ ∀ j, j ≠ k → (r.poll k).1.worker? j = r.worker? j := by
  refine ⟨?_, fun j hj => h.worker?_poll_of_ne hj⟩
  cases hw : r.worker? k with
  | none => rw [poll_of_absent hw]
  | some w =>
    rw [advances_iff hw, not_or, Nat.not_lt, Nat.le_zero] at hk
    obtain ⟨hmoved, hunfinished⟩ := hk
    rcases h.toCome_poll hw with ⟨hwaiting, -⟩ | ⟨hfinished, -⟩
    · rw [poll_of_waiting hw hwaiting]
      rw [w.poll_eq] at hmoved
      exact (Worker.fabric_advance_of_still w.iterations w.left w.cell w.early r.fabric
        w.opening).2 (hmoved.trans w.moved_opening.symm)
    · exact absurd hfinished hunfinished

/-- **There is no deadlock**: as long as a cell is unfinished, some worker gets on. -/
theorem Keeps.exists_advances (h : r.Keeps g S b N ends) (hw : r.worker? k = some w) :
    ∃ j, r.Advances j := by
  have hworker : ∀ {i x}, r.crew N i = some x → ∃ v, r.worker? i = some v ∧
      v.cell.station (N.toNat - v.left) = x := fun hx => Option.map_eq_some_iff.1 hx
  obtain ⟨i, x, hi, hhead⟩ := h.concord.exists_headway (fun {i x q} hi hq => by
    obtain ⟨v, hv, rfl⟩ := hworker hi
    exact ((h.worker hv).2.2.underway q hq).2) (crew_of_worker hw)
  obtain ⟨v, hv, rfl⟩ := hworker hi
  obtain ⟨hiterations, hleft, hfield⟩ := h.worker hv
  have hmoves := Worker.moves_of_headway (h.lt hv) hfield h.concord (crew_of_worker hv)
    (Nat.sub_add_cancel hleft) hhead v.early v.opening
  rw [v.moved_opening, ← hiterations, ← v.poll_eq] at hmoves
  exact ⟨i, (advances_iff hv).2 hmoves⟩

/-! ### Many polls -/

theorem after_append (first second : List Nat) (r : Run) :
    r.after (first ++ second) = (r.after first).after second := List.foldl_append

theorem Keeps.toCome_after_le (h : r.Keeps g S b N ends) (schedule : List Nat) :
    (r.after schedule).toCome N ≤ r.toCome N := by
  induction schedule generalizing r with
  | nil => exact Nat.le_refl _
  | cons k rest ih => exact Nat.le_trans (ih (h.poll k)) (h.toCome_le k)

/-- **A worker that can get on does so when it is visited**, unless another one has before. -/
theorem Keeps.toCome_after_lt (h : r.Keeps g S b N ends) (hk : r.Advances k)
    {schedule : List Nat} (hmem : k ∈ schedule) : (r.after schedule).toCome N < r.toCome N := by
  induction schedule generalizing r with
  | nil => exact absurd hmem List.not_mem_nil
  | cons j rest ih =>
    by_cases hj : r.Advances j
    · exact Nat.lt_of_le_of_lt ((h.poll j).toCome_after_le rest) (h.toCome_lt hj)
    · have hne : k ≠ j := by
        rintro rfl
        exact hj hk
      obtain ⟨hfabric, hworker⟩ := h.still hj
      have hrest := ih (h.poll j) (hk.congr hfabric (hworker k hne))
        ((List.mem_cons.1 hmem).resolve_left hne)
      exact Nat.lt_of_lt_of_le hrest (h.toCome_le j)

/-- The run after the first `n` polls of an endless schedule. -/
def upTo (r : Run) (s : Nat → Nat) (n : Nat) : Run := r.after ((List.range n).map s)

/-- **An endless schedule that keeps visiting all unfinished cells** finishes them. -/
theorem Keeps.finishes (h : r.Keeps g S b N ends) {s : Nat → Nat}
    (hfair : ∀ n k w, (r.upTo s n).worker? k = some w → ∃ m, n ≤ m ∧ s m = k) :
    ∃ n, ∀ k, (r.upTo s n).worker? k = none := by
  have hrest : ∀ left n, (r.upTo s n).toCome N = left →
      ∃ n, ∀ k, (r.upTo s n).worker? k = none := by
    intro left
    induction left using Nat.strongRecOn with
    | ind left ih =>
      intro n hn
      by_cases hdone : ∀ k, (r.upTo s n).worker? k = none
      · exact ⟨n, hdone⟩
      obtain ⟨k, hk⟩ := Classical.not_forall.1 hdone
      obtain ⟨w, hw⟩ := Option.ne_none_iff_exists'.1 hk
      have hkeeps : (r.upTo s n).Keeps g S b N ends := h.after _
      obtain ⟨j, hj⟩ := hkeeps.exists_advances hw
      cases hv : (r.upTo s n).worker? j with
      | none => exact absurd hj (not_advances_of_absent hv)
      | some v =>
        obtain ⟨m, hnm, hm⟩ := hfair n j v hv
        -- the polls from `n` on up to the visit
        have hsplit : r.upTo s (n + (m - n + 1)) = (r.upTo s n).after
            ((List.range (m - n + 1)).map fun i => s (n + i)) := by
          rw [upTo, List.range_add, List.map_append, after_append, List.map_map]
          rfl
        have hmem : j ∈ (List.range (m - n + 1)).map fun i => s (n + i) := by
          refine List.mem_map.2 ⟨m - n, List.mem_range.2 (Nat.lt_succ_self _), ?_⟩
          rw [Nat.add_sub_cancel' hnm, hm]
        have hlt := hkeeps.toCome_after_lt hj hmem
        rw [← hsplit, hn] at hlt
        exact ih _ hlt _ rfl
  exact hrest _ 0 rfl

/-- **No deadlock.** Whatever the schedule, some worker gets on while a cell is unfinished, a poll
that gets on leaves less to come, and no poll fails; an endless schedule that keeps visiting all
unfinished cells finishes every cell after finitely many polls. -/
theorem deadlock_free {c : Config} {m : Mesh} (h : Mesh.assemble c = .ok m) (N : UInt32) :
    (∀ schedule : List Nat,
      let r := (ofMesh m N).after schedule
      (∀ k w, r.worker? k = some w → ∃ j v, r.worker? j = some v ∧ r.Advances j) ∧
      ∀ k event, (r.poll k).2 = some event →
        (∀ cause, event.verdict ≠ .failed cause) ∧
        (event.GetsOn → (r.poll k).1.toCome N < r.toCome N)) ∧
    ∀ s : Nat → Nat,
      (∀ n k w, ((ofMesh m N).upTo s n).worker? k = some w → ∃ i, n ≤ i ∧ s i = k) →
      ∃ n, ∀ k, ((ofMesh m N).upTo s n).worker? k = none := by
  obtain ⟨ends, hinitial, -⟩ := keeps_ofMesh h N
  refine ⟨fun schedule => ?_, fun s hfair => hinitial.finishes hfair⟩
  intro r
  have hkeeps : r.Keeps m.geometry c.edgeLength.toNat c.border N ends := hinitial.after schedule
  refine ⟨fun k w hw => ?_, fun k event hevent => ⟨hkeeps.verdict_ne hevent, fun hgets => ?_⟩⟩
  · obtain ⟨j, hj⟩ := hkeeps.exists_advances hw
    cases hv : r.worker? j with
    | none => exact absurd hj (not_advances_of_absent hv)
    | some v => exact ⟨j, v, hv, hj⟩
  · exact hkeeps.toCome_lt ⟨event, hevent, hgets⟩

/-- Four cells that are polled in turn finish. -/
theorem deadlock_free_square : ∃ m, Mesh.assemble { cells := 4, messageWords := 3 } = .ok m ∧
    ∀ N : UInt32, ∃ n, ∀ k, ((ofMesh m N).upTo (· % 4) n).worker? k = none := by
  obtain ⟨m, hm⟩ : ∃ m, Mesh.assemble { cells := 4, messageWords := 3 } = .ok m := ⟨_, rfl⟩
  refine ⟨m, hm, fun N => (deadlock_free hm N).2 (· % 4) fun n k w hw => ?_⟩
  obtain ⟨ends, hinitial, -⟩ := keeps_ofMesh hm N
  have hcells : m.geometry = ⟨4, 1, rfl⟩ := (Except.ok.inj (Mesh.assembled hm).1).symm
  have hk : k < m.geometry.cells.toNat := (hinitial.after _).lt hw
  rw [hcells] at hk
  have hk : k < 4 := hk
  exact ⟨4 * n + k, by omega, by omega⟩

end Run
end DiffusionMesh

/-
# The loops of the solver, index by index

`Solver.create`, `Solver.step` and `Solver.bytes` give their arrays as wholes. The loops behind them
read and write one place after the other, each through its flat index. Here every index is checked,
and a loop stops at the first one that is out of range. A grid of side `S` with its ring has
`w = S + 2` places in a row and `w · w` in all:

| loop | counters | reads | writes |
| --- | --- | --- | --- |
| `create?` | `k` from 1 to `S` | | `k`, `(w - 1) · w + k`, `k · w`, `k · w + w - 1` |
| `step?` | `i`, `j` from 1 to `S` | `k = i · w + j`, `k - w`, `k + w`, `k + 1`, `k - 1` | `k` |
| `bytes?` | `row`, `column` from 0 to `S - 1` | `(row + 1) · w + column + 1` | |

The places that a loop leaves alone already hold what they should, so the loop ends with the whole
array (`Overwritten.eq`). Main statements: `create?_eq`, `run?_eq` and `bytes?_eq`.
-/

import DiffusionMesh.Proofs.Tile.Writes

namespace DiffusionMesh

/-- A grid after some writes: at the places written it holds what the goal holds there, elsewhere it
is as it was. -/
structure Overwritten (start goal : Array Temperature) (done : List Nat)
    (grid : Array Temperature) : Prop where
  size : grid.size = goal.size
  get : ∀ i, grid[i]? = if i ∈ done then goal[i]? else start[i]?

namespace Overwritten

variable {start goal grid : Array Temperature} {done : List Nat} {i : Nat} {t : Temperature}

theorem refl (h : start.size = goal.size) : Overwritten start goal [] start :=
  ⟨h, fun i => by simp⟩

/-- A write of what the goal holds is in range. -/
theorem set? (h : Overwritten start goal done grid) (hi : goal[i]? = some t) :
    ∃ grid', Edge.set? grid i t = some grid' ∧ Overwritten start goal (done ++ [i]) grid' := by
  obtain ⟨hlt, -⟩ := Array.getElem?_eq_some_iff.1 hi
  obtain ⟨grid', hset, hsize, hget⟩ := Edge.exists_set? (e := grid) (h.size.symm ▸ hlt) t
  refine ⟨grid', hset, hsize.trans h.size, fun j => ?_⟩
  rw [hget, h.get]
  by_cases hj : j = i
  · simp [hj, hi]
  · simp [hj]

/-- Once all places are written that differ, the goal is reached. -/
theorem eq (h : Overwritten start goal done grid) (hrest : ∀ i, i ∉ done → start[i]? = goal[i]?) :
    grid = goal := by
  refine Array.ext_getElem? fun i => ?_
  rw [h.get]
  split
  · rfl
  · next hi => exact hrest i hi

end Overwritten

namespace Solver

/-- The numbers that the loops of a solver count through. -/
def counters (side : Nat) : List Nat := List.range' 1 side

theorem mem_counters {side k : Nat} : k ∈ counters side ↔ 1 ≤ k ∧ k ≤ side := by
  rw [counters, List.mem_range'_1]
  omega

/-- A grid of zeros with a ring of zeros. -/
def blank (side : Nat) : Array Temperature := Array.replicate ((side + 2) * (side + 2)) .zero

/-- Puts the border around a grid at the four places of a number. -/
def surround? (side : Nat) (border : Border) (grid : Array Temperature) (k : Nat) :
    Option (Array Temperature) := do
  let width := side + 2
  let grid ← Edge.set? grid k border.north
  let grid ← Edge.set? grid ((width - 1) * width + k) border.south
  let grid ← Edge.set? grid (k * width) border.west
  Edge.set? grid (k * width + width - 1) border.east

/-- The loop that makes a solver: a grid of zeros gets its ring, and the other grid is a copy. -/
def create? (side : Nat) (border : Border) : Option Solver :=
  ((counters side).foldlM (surround? side border) (blank side)).map fun grid =>
    ⟨side, grid, grid, 0⟩

variable (s : Solver)

/-- The temperature so many places before a flat index. -/
def before? (k places : Nat) : Option Temperature :=
  if places ≤ k then s.current[k - places]? else none

/-- One turn of the loop of a step: reads five places of the current grid and writes one of the grid
under construction. -/
def visit? (grid : Array Temperature) (i j : Nat) : Option (Array Temperature) := do
  let k := i * s.width + j
  let old ← s.current[k]?
  let north ← s.before? k s.width
  let south ← s.current[k + s.width]?
  let east ← s.current[k + 1]?
  let west ← s.before? k 1
  Edge.set? grid k (nextTemperature old north south east west)

/-- The loop of a step. The grids then take turns. -/
def step? : Option Solver :=
  ((counters s.side).foldlM
    (fun grid i => (counters s.side).foldlM (fun grid j => s.visit? grid i j) grid)
    s.next).map fun grid => ⟨s.side, grid, s.current, s.iterations + 1⟩

/-- The loops of several steps. -/
def run? : Nat → Solver → Option Solver
  | 0, s => some s
  | n + 1, s => s.step?.bind (run? n)

/-- The loop that collects the temperature bytes. -/
def bytes? : Option (Array UInt8) :=
  (List.range s.side).foldlM (fun bytes row => (List.range s.side).foldlM
    (fun bytes column => (s.get? row column).map fun t => bytes.push t.byte) bytes) #[]

/-- Both grids have as many places as a grid of the side with its ring. -/
structure Sized (s : Solver) : Prop where
  current : s.current.size = s.width * s.width
  next : s.next.size = s.width * s.width

variable {s} {L : Nat} {b : Border}

/-! ### Making a solver -/

/-- What a new grid holds at a row and a column counted from the ring. -/
theorem current_create {r c : Nat} (hr : r < L + 2) (hc : c < L + 2) :
    (create L b).current[r * (L + 2) + c]? = some (ringValue L b r c) := by
  have hk : r * (L + 2) + c < (L + 2) * (L + 2) := Tile.index_lt hr hc
  simp [create, hk, div_row hc, mod_row hc]

/-- The places that a turn of the loop puts the border at. -/
def ringPlaces (L k : Nat) : List Nat :=
  [k, (L + 1) * (L + 2) + k, k * (L + 2), k * (L + 2) + (L + 1)]

/-- A turn writes its four places in range. -/
theorem exists_surround? {start grid : Array Temperature} {done : List Nat} {k : Nat}
    (hk : 1 ≤ k ∧ k ≤ L) (h : Overwritten start (create L b).current done grid) :
    ∃ grid', surround? L b grid k = some grid' ∧
      Overwritten start (create L b).current (done ++ ringPlaces L k) grid' := by
  obtain ⟨hnorth, hsouth, heast, hwest⟩ := ringValue_sides b hk
  obtain ⟨g₁, h₁, hw₁⟩ := h.set? (i := k) (t := b.north) <| by
    have hat := current_create (b := b) (r := 0) (c := k) (by omega) (show k < L + 2 by omega)
    rwa [Nat.zero_mul, Nat.zero_add, hnorth] at hat
  obtain ⟨g₂, h₂, hw₂⟩ := hw₁.set? (i := (L + 1) * (L + 2) + k) (t := b.south) <| by
    rw [current_create (by omega) (by omega), hsouth]
    rfl
  obtain ⟨g₃, h₃, hw₃⟩ := hw₂.set? (i := k * (L + 2)) (t := b.west) <| by
    have hat := current_create (b := b) (show k < L + 2 by omega) (c := 0) (by omega)
    rwa [Nat.add_zero, hwest] at hat
  obtain ⟨g₄, h₄, hw₄⟩ := hw₃.set? (i := k * (L + 2) + (L + 1)) (t := b.east) <| by
    rw [current_create (by omega) (by omega), heast]
    rfl
  refine ⟨g₄, ?_, by simpa [ringPlaces] using hw₄⟩
  have hlast : k * (L + 2) + (L + 2) - 1 = k * (L + 2) + (L + 1) := by omega
  simp [surround?, hlast, h₁, h₂, h₃, h₄]

/-- Off the sides of the ring a new grid is zero, as the loop found it. -/
theorem ringValue_of_unwritten {r c : Nat}
    (h : ∀ k, 1 ≤ k → k ≤ L → r * (L + 2) + c ∉ ringPlaces L k) : ringValue L b r c = .zero := by
  refine ringValue_of_not_onSide fun d hd => ?_
  cases d with
  | north =>
    obtain ⟨rfl, hc₁, hc₂⟩ := hd
    exact h c hc₁ hc₂ (by simp [ringPlaces])
  | south =>
    obtain ⟨rfl, hc₁, hc₂⟩ := hd
    exact h c hc₁ hc₂ (by simp [ringPlaces])
  | east =>
    obtain ⟨rfl, hr₁, hr₂⟩ := hd
    exact h r hr₁ hr₂ (by simp [ringPlaces])
  | west =>
    obtain ⟨rfl, hr₁, hr₂⟩ := hd
    exact h r hr₁ hr₂ (by simp [ringPlaces])

/-- **The loop that makes a solver stays in range**, and puts the border where the ring is. -/
theorem create?_eq (L : Nat) (b : Border) : create? L b = some (create L b) := by
  have hsize : (blank L).size = (create L b).current.size := by simp [blank, create]
  obtain ⟨grid, hloop, hgrid⟩ := exists_foldlM (Overwritten (blank L) (create L b).current)
    (counters L) (ringPlaces L) (fun hk => exists_surround? (mem_counters.1 hk)) (.refl hsize)
  have heq : grid = (create L b).current := by
    refine hgrid.eq fun i hi => ?_
    by_cases hlt : i < (L + 2) * (L + 2)
    · obtain ⟨r, c, hr, hc, rfl⟩ := exists_place hlt
      rw [current_create hr hc, ringValue_of_unwritten]
      · simp [blank, hlt]
      · intro k hk₁ hk₂ hmem
        exact hi (List.mem_append_right _
          (List.mem_flatMap.2 ⟨k, mem_counters.2 ⟨hk₁, hk₂⟩, hmem⟩))
    · simp [blank, create, hlt]
  rw [create?, hloop, heq]
  rfl

/-! ### Steps -/

theorem sized_create (L : Nat) (b : Border) : (create L b).Sized :=
  ⟨by simp [create, width], by simp [create, width]⟩

theorem Sized.step (h : s.Sized) : s.step.Sized :=
  ⟨by simpa [Solver.step, width] using h.next, h.current⟩

/-- What a step leaves at a row and a column counted from the ring. -/
theorem Sized.current_step (h : s.Sized) {r c : Nat} (hr : r < s.width) (hc : c < s.width) :
    s.step.current[r * s.width + c]? =
      if inside s.side r c then some (s.nextAt (r * s.width + c))
      else s.next[r * s.width + c]? := by
  have hk : r * s.width + c < s.next.size := h.next ▸ Tile.index_lt hr hc
  simp only [Solver.step, Array.getElem?_mapIdx, div_row hc, mod_row hc]
  split <;> simp [hk]

/-- A turn of the loop of a step reads and writes in range. -/
theorem Sized.exists_visit? (h : s.Sized) {grid : Array Temperature} {done : List Nat} {i j : Nat}
    (hi : 1 ≤ i ∧ i ≤ s.side) (hj : 1 ≤ j ∧ j ≤ s.side)
    (hgrid : Overwritten s.next s.step.current done grid) :
    ∃ grid', s.visit? grid i j = some grid' ∧
      Overwritten s.next s.step.current (done ++ [i * s.width + j]) grid' := by
  have hwidth : s.width = s.side + 2 := rfl
  -- the row above and the row below are rows of the grid
  have habove : s.width ≤ i * s.width := Nat.le_mul_of_pos_left _ hi.1
  have hbelow : (i + 1) * s.width + j < s.width * s.width :=
    Tile.index_lt (by omega) (by omega)
  rw [Nat.succ_mul] at hbelow
  have hgoal : s.step.current[i * s.width + j]? = some (s.nextAt (i * s.width + j)) := by
    rw [h.current_step (by omega) (by omega), if_pos (inside_iff.2 ⟨hi, hj⟩)]
  obtain ⟨grid', hset, hnext⟩ := hgrid.set? hgoal
  refine ⟨grid', ?_, hnext⟩
  have hread : ∀ k, k < s.width * s.width → s.current[k]? = some (s.place k) :=
    fun k hk => getElem?_eq_place (h.current.symm ▸ hk)
  have hbefore : ∀ places, places ≤ i * s.width + j →
      s.before? (i * s.width + j) places = some (s.place (i * s.width + j - places)) := by
    intro places hle
    rw [before?, if_pos hle, hread _ (by omega)]
  have hold := hread (i * s.width + j) (by omega)
  have hnorth := hbefore s.width (by omega)
  have hsouth := hread (i * s.width + j + s.width) (by omega)
  have heast := hread (i * s.width + j + 1) (by omega)
  have hwest := hbefore 1 (by omega)
  simp only [nextAt] at hset
  simp only [visit?, hold, hnorth, hsouth, heast, hwest, Option.bind_eq_bind, Option.bind_some,
    hset]

/-- **The loop of a step stays in range**, and gives what `step` does. -/
theorem Sized.step?_eq (h : s.Sized) : s.step? = some s.step := by
  have hsize : s.next.size = s.step.current.size := h.next.trans h.step.current.symm
  obtain ⟨grid, hloop, hgrid⟩ := exists_foldlM (Overwritten s.next s.step.current)
    (counters s.side) (fun i => (counters s.side).flatMap fun j => [i * s.width + j])
    (fun hi hrow => exists_foldlM (Overwritten s.next s.step.current)
      (counters s.side) (fun j => [_ * s.width + j])
      (fun hj => h.exists_visit? (mem_counters.1 hi) (mem_counters.1 hj)) hrow) (.refl hsize)
  have heq : grid = s.step.current := by
    refine hgrid.eq fun k hk => ?_
    by_cases hlt : k < s.width * s.width
    · obtain ⟨r, c, hr, hc, rfl⟩ := exists_place hlt
      rw [h.current_step hr hc, if_neg]
      intro hin
      obtain ⟨hr', hc'⟩ := inside_iff.1 hin
      exact hk (List.mem_append_right _ (List.mem_flatMap.2 ⟨r, mem_counters.2 hr',
        List.mem_flatMap.2 ⟨c, mem_counters.2 hc', List.mem_singleton_self _⟩⟩))
    · have hnext := h.next
      rw [Array.getElem?_eq_none (by omega), Array.getElem?_eq_none (by omega)]
  rw [step?, hloop, heq]
  rfl

/-- **The loops of several steps stay in range.** -/
theorem Sized.run?_eq (h : s.Sized) (n : Nat) : run? n s = some (run n s) := by
  induction n generalizing s with
  | zero => rfl
  | succ n ih => rw [run?, h.step?_eq, Option.bind_some, ih h.step, run]

theorem Sized.run (h : s.Sized) (n : Nat) : (run n s).Sized := by
  induction n generalizing s with
  | zero => exact h
  | succ n ih => exact ih h.step

/-! ### The temperature bytes -/

/-- Two nested loops over a square visit its positions row by row. -/
theorem flatMap_range_eq_squares (L : Nat) :
    ((List.range L).flatMap fun r => (List.range L).flatMap fun c => [(r, c)]) = squares L := by
  have hrows : ∀ m, ((List.range m).flatMap fun r => (List.range L).flatMap fun c => [(r, c)]) =
      (List.range (m * L)).map fun k => (k / L, k % L) := by
    intro m
    induction m with
    | zero => simp
    | succ m ih =>
      rw [List.range_succ, List.flatMap_append, ih, Nat.succ_mul, List.range_add, List.map_append,
        List.map_map, List.flatMap_singleton]
      congr 1
      rw [← List.map_eq_flatMap]
      refine List.map_congr_left fun c hc => ?_
      have hlt := List.mem_range.1 hc
      simp [div_row hlt, mod_row hlt]
  exact hrows L

/-- **Two nested loops visit the positions of a square row by row**: when every turn goes on, so do
the loops. -/
theorem exists_foldlM_squares {σ : Type} (P : List (Nat × Nat) → σ → Prop) (L : Nat)
    {turn : σ → Nat → Nat → Option σ}
    (hturn : ∀ {done s r c}, r < L → c < L → P done s →
      ∃ s', turn s r c = some s' ∧ P (done ++ [(r, c)]) s')
    {s : σ} (h : P [] s) :
    ∃ s', (List.range L).foldlM (fun s r => (List.range L).foldlM (fun s c => turn s r c) s) s =
      some s' ∧ P (squares L) s' := by
  obtain ⟨s', hloop, hall⟩ := exists_foldlM P (List.range L)
    (fun r => (List.range L).flatMap fun c => [(r, c)])
    (fun hr hrow => exists_foldlM P (List.range L) (fun c => [(_, c)])
      (fun hc => hturn (List.mem_range.1 hr) (List.mem_range.1 hc)) hrow) h
  rw [List.nil_append, flatMap_range_eq_squares] at hall
  exact ⟨s', hloop, hall⟩

/-- A position of the grid is read in range. -/
theorem Sized.get?_eq (h : s.Sized) {r c : Nat} (hr : r < s.side) (hc : c < s.side) :
    s.get? r c = some (s.value r c) := by
  have hwidth : s.width = s.side + 2 := rfl
  have hk : (r + 1) * s.width + (c + 1) < s.width * s.width :=
    Tile.index_lt (by omega) (by omega)
  exact getElem?_eq_place (by have := h.current; omega)

/-- The bytes that the loop has collected from some positions. -/
def Collected (s : Solver) (done : List (Nat × Nat)) (bytes : Array UInt8) : Prop :=
  bytes.toList = done.map fun p => (s.value p.1 p.2).byte

/-- A turn of the loop over the temperature bytes reads in range. -/
theorem Sized.exists_push (h : s.Sized) {done : List (Nat × Nat)} {bytes : Array UInt8} {r c : Nat}
    (hr : r < s.side) (hc : c < s.side) (hbytes : s.Collected done bytes) :
    ∃ bytes', ((s.get? r c).map fun t => bytes.push t.byte) = some bytes' ∧
      s.Collected (done ++ [(r, c)]) bytes' := by
  rw [h.get?_eq hr hc]
  refine ⟨_, rfl, ?_⟩
  unfold Collected at hbytes ⊢
  simp [hbytes]

/-- **The loop over the temperature bytes stays in range**, and gives them row by row. -/
theorem Sized.bytes?_eq (h : s.Sized) : s.bytes? = some s.bytes := by
  obtain ⟨bytes, hloop, hbytes⟩ := exists_foldlM_squares s.Collected s.side
    (fun hr hc => h.exists_push hr hc) (show s.Collected [] #[] from rfl)
  have heq : bytes = s.bytes := by
    unfold Collected at hbytes
    refine Array.toList_inj.1 (List.ext_getElem ?_ fun k hk hk' => ?_)
    · simp [hbytes, squares, Solver.bytes]
    · simp [hbytes, squares, Solver.bytes]
  rw [bytes?, hloop, heq]

end Solver
end DiffusionMesh

/-
# What the differences of two heat maps tell

Two heat maps of one side are compared byte by byte, and the places where they differ are listed
with both bytes. The places are counted along the bytes and turned into rows and columns only after
those without a difference have been dropped:

| entry | |
| --- | --- |
| index `k` with equal bytes | dropped |
| index `k` with bytes `x ≠ y` | row `k / side`, column `k % side`, `x`, `y` |

The indices come in order and each once, and so do the positions (`before_of_lt`). An index below
`side · side` is that of its position, so the list has exactly the positions at which the maps read
differently (`mem_diff_iff`), and it is all that has to be changed in the one map to get the other
(`overwrite_diff`). Main statement: `diff_complete`.
-/

import DiffusionMesh.Proofs.Image.Formats
import DiffusionMesh.Proofs.Image.Reading
import DiffusionMesh.Proofs.Mesh.Refinement
import Mathlib.Data.List.Zip

namespace DiffusionMesh

/-- A position at which two heat maps differ, and the bytes of both. -/
abbrev Difference := Nat × Nat × UInt8 × UInt8

namespace Difference

/-- The row and the column. -/
def spot (d : Difference) : Nat × Nat := (d.1, d.2.1)

/-- The byte of the second map. -/
def theirs (d : Difference) : UInt8 := d.2.2.2

/-- The same difference, seen from the second map. -/
def swap (d : Difference) : Difference := (d.1, d.2.1, d.2.2.2, d.2.2.1)

end Difference

/-- A position comes before another one, row by row. -/
def Before (p q : Nat × Nat) : Prop := p.1 < q.1 ∨ p.1 = q.1 ∧ p.2 < q.2

/-- The positions of smaller indices come first. -/
theorem before_of_lt {j k : Nat} (side : Nat) (h : j < k) :
    Before (j / side, j % side) (k / side, k % side) := by
  rcases Nat.lt_or_eq_of_le (Nat.div_le_div_right (c := side) (Nat.le_of_lt h)) with hrow | hrow
  · exact .inl hrow
  · refine .inr ⟨hrow, ?_⟩
    have hj := Nat.div_add_mod j side
    have hk := Nat.div_add_mod k side
    rw [hrow] at hj
    change j % side < k % side
    omega

/-- The counted entries of a list come in the order of their indices. -/
theorem pairwise_zipIdx {α : Type} (l : List α) : l.zipIdx.Pairwise fun x y => x.2 < y.2 := by
  rw [← List.pairwise_map, List.zipIdx_map_snd]
  exact List.pairwise_lt_range'

namespace HeatMap

variable {a b m : HeatMap} {row column k : Nat} {ours theirs : UInt8}

/-! ### The list -/

/-- The bytes of both maps at an index, where both have one. -/
theorem getElem?_zip : (a.bytes.zip b.bytes).toList[k]? = some (ours, theirs) ↔
    a.bytes[k]? = some ours ∧ b.bytes[k]? = some theirs := by
  rw [Array.toList_zip, List.getElem?_zip_eq_some, Array.getElem?_toList, Array.getElem?_toList]

/-- What is listed is an index with different bytes, as a row and a column. -/
theorem mem_diff : (row, column, ours, theirs) ∈ a.diff b ↔ ∃ k, a.bytes[k]? = some ours ∧
    b.bytes[k]? = some theirs ∧ ours ≠ theirs ∧ k / a.side = row ∧ k % a.side = column := by
  simp only [diff, List.mem_map, List.mem_filter, Prod.exists, decide_eq_true_eq, Prod.mk.injEq,
    List.mem_zipIdx_iff_getElem?, getElem?_zip]
  constructor
  · rintro ⟨x, y, k, ⟨⟨hours, htheirs⟩, hne⟩, hrow, hcolumn, rfl, rfl⟩
    exact ⟨k, hours, htheirs, hne, hrow, hcolumn⟩
  · rintro ⟨k, hours, htheirs, hne, hrow, hcolumn⟩
    exact ⟨ours, theirs, k, ⟨⟨hours, htheirs⟩, hne⟩, hrow, hcolumn, rfl, rfl⟩

/-- An index that is read lies in the square. -/
theorem lt_of_getElem? (h : m.bytes[k]? = some ours) : k < m.side * m.side := by
  obtain ⟨hlt, -⟩ := Array.getElem?_eq_some_iff.1 h
  rwa [m.bytes_size] at hlt

/-- **The positions listed are those at which the maps read differently**, with what they read. -/
theorem mem_diff_iff (h : a.side = b.side) : (row, column, ours, theirs) ∈ a.diff b ↔
    row < a.side ∧ column < a.side ∧ a.get? row column = some ours ∧
      b.get? row column = some theirs ∧ ours ≠ theirs := by
  rw [mem_diff]
  constructor
  · rintro ⟨k, hours, htheirs, hne, rfl, rfl⟩
    have hk := lt_of_getElem? hours
    have hpos : 0 < a.side := Nat.pos_of_mul_pos_left (Nat.zero_lt_of_lt hk)
    rw [get?, get?, ← h, Nat.div_add_mod']
    exact ⟨Nat.div_lt_of_lt_mul hk, Nat.mod_lt _ hpos, hours, htheirs, hne⟩
  · rintro ⟨-, hcolumn, hours, htheirs, hne⟩
    rw [get?, ← h] at htheirs
    exact ⟨row * a.side + column, hours, htheirs, hne, Solver.div_row hcolumn,
      Solver.mod_row hcolumn⟩

/-- **The positions are listed row by row, each once.** -/
theorem pairwise_diff : ((a.diff b).map Difference.spot).Pairwise Before := by
  rw [List.pairwise_map, diff, List.pairwise_map]
  refine ((pairwise_zipIdx _).filter _).imp ?_
  intro x y hlt
  exact before_of_lt a.side hlt

theorem diff_swap (h : a.side = b.side) : b.diff a = (a.diff b).map Difference.swap := by
  have hzip : (b.bytes.zip a.bytes).toList = (a.bytes.zip b.bytes).toList.map Prod.swap := by
    rw [Array.toList_zip, Array.toList_zip, List.zip_swap]
  have hne : ∀ x y : UInt8, decide (y ≠ x) = decide (x ≠ y) := fun x y => by simp [eq_comm]
  rw [diff, diff, hzip, List.zipIdx_map, List.filter_map, List.map_map, List.map_map, ← h]
  have hfilter : ((fun x : (UInt8 × UInt8) × Nat => decide (x.1.1 ≠ x.1.2)) ∘
      Prod.map Prod.swap id) = fun x => decide (x.1.1 ≠ x.1.2) := by
    funext x
    exact hne x.1.1 x.1.2
  rw [hfilter]
  rfl

/-! ### The divisions -/

/-- The list, with a division by zero ending it. -/
def diff? (m other : HeatMap) : Option (List Difference) :=
  ((m.bytes.zip other.bytes).toList.zipIdx.filter fun ((a, b), _) => a ≠ b).mapM
    fun ((a, b), k) => if m.side = 0 then none else some (k / m.side, k % m.side, a, b)

/-- A map without positions has no index to be divided. -/
theorem diff?_eq : a.diff? b = some (a.diff b) := by
  rw [diff?, diff]
  by_cases hside : a.side = 0
  · have hempty : (a.bytes.zip b.bytes).toList = [] := by
      have hsize : a.bytes = #[] := Array.eq_empty_of_size_eq_zero (by rw [a.bytes_size, hside])
      simp [hsize]
    rw [hempty]
    rfl
  · simp only [if_neg hside]
    exact List.mapM_pure

/-! ### Changing one map into the other -/

/-- The map with another byte at a position. -/
def withByte (m : HeatMap) (row column : Nat) (byte : UInt8) : HeatMap where
  side := m.side
  bytes := m.bytes.setIfInBounds (row * m.side + column) byte
  bytes_size := by rw [Array.size_setIfInBounds, m.bytes_size]

/-- One byte is changed, and all others stay as they were. -/
theorem getElem?_withByte {byte : UInt8} : (m.withByte row column byte).bytes[k]? =
    if row * m.side + column = k then
      if row * m.side + column < m.side * m.side then some byte else none
    else m.bytes[k]? := by
  rw [withByte, Array.getElem?_setIfInBounds, m.bytes_size]

/-- The map with the second bytes of some differences at their positions. -/
def overwrite (m : HeatMap) (differences : List Difference) : HeatMap :=
  differences.foldl (fun m d => m.withByte d.spot.1 d.spot.2 d.theirs) m

/-- Where one map has the byte of the other already, or gets it, it has it in the end. -/
theorem getElem?_overwrite (hside : m.side = b.side) {differences : List Difference}
    (hbytes : ∀ d ∈ differences, b.get? d.spot.1 d.spot.2 = some d.theirs)
    (hk : m.bytes[k]? = b.bytes[k]? ∨
      ∃ d ∈ differences, d.spot.1 * b.side + d.spot.2 = k) :
    (m.overwrite differences).bytes[k]? = b.bytes[k]? := by
  induction differences generalizing m with
  | nil => simpa [overwrite] using hk
  | cons d rest ih =>
    rw [List.forall_mem_cons] at hbytes
    refine ih (m := m.withByte d.spot.1 d.spot.2 d.theirs) hside hbytes.2 ?_
    have hget := hbytes.1
    rw [get?] at hget
    by_cases hindex : d.spot.1 * m.side + d.spot.2 = k
    · left
      rw [getElem?_withByte, if_pos hindex, hside, if_pos (lt_of_getElem? hget), ← hget, ← hside,
        hindex]
    · rw [getElem?_withByte, if_neg hindex]
      rcases hk with hk | ⟨e, he, hat⟩
      · exact .inl hk
      · rcases List.mem_cons.1 he with rfl | he
        · exact absurd (hside ▸ hat) hindex
        · exact .inr ⟨e, he, hat⟩

theorem side_overwrite (differences : List Difference) :
    (m.overwrite differences).side = m.side := by
  induction differences generalizing m with
  | nil => rfl
  | cons d rest ih => exact ih (m := m.withByte d.spot.1 d.spot.2 d.theirs)

/-- **The differences are all that has to be changed.** -/
theorem overwrite_diff (h : a.side = b.side) : a.overwrite (a.diff b) = b := by
  refine ext_bytes ((side_overwrite _).trans h) fun k => ?_
  refine getElem?_overwrite h (fun d hd => ((mem_diff_iff h).1 hd).2.2.2.1) ?_
  by_cases hk : k < a.bytes.size
  · have hk' : k < b.bytes.size := by rwa [b.bytes_size, ← h, ← a.bytes_size]
    have hours := Array.getElem?_eq_getElem hk
    have htheirs := Array.getElem?_eq_getElem hk'
    by_cases hsame : a.bytes[k] = b.bytes[k]
    · left
      rw [hours, htheirs, hsame]
    · right
      refine ⟨(k / a.side, k % a.side, _, _), mem_diff.2 ⟨k, hours, htheirs, hsame, rfl, rfl⟩, ?_⟩
      rw [← h]
      exact Nat.div_add_mod' k a.side
  · left
    have hk' : ¬ k < b.bytes.size := by rwa [b.bytes_size, ← h, ← a.bytes_size]
    rw [Array.getElem?_eq_none (Nat.not_lt.1 hk), Array.getElem?_eq_none (Nat.not_lt.1 hk')]

theorem diff_eq_nil_iff (h : a.side = b.side) : a.diff b = [] ↔ a = b := by
  constructor
  · intro hnil
    have hover := overwrite_diff h
    rwa [hnil] at hover
  · rintro rfl
    exact a.diff_self

/-- A result is accepted exactly when it has no difference from the expected one. -/
theorem checkAgainst_eq_ok_iff : a.checkAgainst b = .ok () ↔ a.diff b = [] := by
  rw [checkAgainst]
  cases a.diff b <;> simp

/-! ### What a comparison tells -/

/-- What the differences of two heat maps tell: the positions at which they read differently, row by
row and each once, with what they read; what has to be changed in the first map to get the second;
and whether they are the same. No index is divided by zero. -/
structure Compared (a b : HeatMap) : Prop where
  ordered : ((a.diff b).map Difference.spot).Pairwise Before
  exact : ∀ r c ours theirs, (r, c, ours, theirs) ∈ a.diff b ↔ r < a.side ∧ c < a.side ∧
    a.get? r c = some ours ∧ b.get? r c = some theirs ∧ ours ≠ theirs
  repairs : a.overwrite (a.diff b) = b
  silent : a.diff b = [] ↔ a = b
  swapped : b.diff a = (a.diff b).map Difference.swap
  divisions : a.diff? b = some (a.diff b)
  accepted : a.checkAgainst b = .ok () ↔ a = b

theorem compared (h : a.side = b.side) : a.Compared b where
  ordered := pairwise_diff
  exact _ _ _ _ := mem_diff_iff h
  repairs := overwrite_diff h
  silent := diff_eq_nil_iff h
  swapped := diff_swap h
  divisions := diff?_eq
  accepted := checkAgainst_eq_ok_iff.trans (diff_eq_nil_iff h)

end HeatMap

/-- The heat map of a run and that of the solver have one side. -/
theorem Config.side_eq {c : Config} {schedule : List Nat} {expected : HeatMap} {outcome : Outcome}
    (hsolve : c.solve = .ok expected) (hrun : c.runMesh schedule = .ok outcome) :
    outcome.heatMap.side = expected.side := by
  cases hvalid : c.validate with
  | error cause =>
    rw [solve, hvalid] at hsolve
    cases hsolve
  | ok =>
    obtain ⟨g, hg, -⟩ := geometry_of_validate hvalid
    cases hm : Mesh.assemble c with
    | error cause =>
      rw [runMesh, Mesh.create, hvalid] at hrun
      simp only [bind, Except.bind, hm] at hrun
      cases hrun
    | ok m =>
      obtain ⟨found, hfound, hmap⟩ := runMesh_eq hvalid hm schedule
      obtain rfl := Except.ok.inj (hg.symm.trans (Mesh.assembled hm).1)
      obtain rfl := Except.ok.inj (hrun.symm.trans hfound)
      obtain rfl := Except.ok.inj (hsolve.symm.trans (solve_eq hvalid hg))
      rw [hmap]

namespace HeatMap

/-- **The differences of two heat maps of one side are complete**, whatever the maps hold; and the
heat maps that a run compares are of one side. -/
theorem diff_complete :
    (∀ a b : HeatMap, a.side = b.side → a.Compared b) ∧
    ∀ (c : Config) (schedule : List Nat) (expected : HeatMap) (outcome : Outcome),
      c.solve = .ok expected → c.runMesh schedule = .ok outcome →
        outcome.heatMap.side = expected.side :=
  ⟨fun _ _ => compared, fun _ _ _ _ => Config.side_eq⟩

/-- Two maps that differ in the last byte of the first row and in the first byte of the second. -/
theorem diff_complete_square :
    let a : HeatMap := ⟨2, #[10, 20, 30, 40], rfl⟩
    let b : HeatMap := ⟨2, #[10, 21, 0, 40], rfl⟩
    a.side = b.side ∧ a.diff b = [(0, 1, 20, 21), (1, 0, 30, 0)] ∧
    a.overwrite [(0, 1, 20, 21), (1, 0, 30, 0)] = b ∧
    b.diff a = [(0, 1, 21, 20), (1, 0, 0, 30)] ∧ a.checkAgainst b ≠ .ok () := by
  intro a b
  have hdiff : a.diff b = [(0, 1, 20, 21), (1, 0, 30, 0)] := by decide +kernel
  have h := diff_complete.1 a b rfl
  refine ⟨rfl, hdiff, hdiff ▸ h.repairs, ?_, fun haccepted => ?_⟩
  · rw [h.swapped, hdiff]
    rfl
  · exact absurd (h.accepted.1 haccepted) (by decide)

end HeatMap
end DiffusionMesh

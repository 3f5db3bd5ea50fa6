/-
# Where a heat map is read

A heat map is read at a row and a column through the flat index `row · side + column`, and only this
index is checked:

| row and column | what is read |
| --- | --- |
| both below the side | the byte of that position |
| a column past the end of its row, and `row + column / side` below the side | a byte further down |
| any others | nothing, and the program is brought down |

A column past the end of its row goes on in the rows below it, until there are none (`landing`). So
every position of the square has a byte of its own, and no row past the last one is read, but of the
columns past the end only those are caught that go on beyond the last row.

The index is computed in words of 64 bits. Where it does not fit, the program stops or the index
wraps, as the program was built (`Overflow`); where it fits, as it does in the whole square, it is
the index above (`readWords?_eq`). Main statement: `reading_outcome`.
-/

import DiffusionMesh.Proofs.Image.Mosaic
import DiffusionMesh.Proofs.Tile.Field

namespace DiffusionMesh
namespace HeatMap

variable {m : HeatMap} {row column row' column' : Nat}

/-! ### The flat index -/

/-- The position whose byte a row and a column give: a column past the end of its row goes on in the
rows below it. -/
def landing (m : HeatMap) (row column : Nat) : Nat × Nat := (row + column / m.side, column % m.side)

/-- Within the square a position gives its own byte. -/
theorem landing_inside (h : column < m.side) : m.landing row column = (row, column) := by
  simp [landing, Nat.div_eq_of_lt h, Nat.mod_eq_of_lt h]

/-- A row and a column have the flat index of the position where they land. -/
theorem index_landing : (m.landing row column).1 * m.side + (m.landing row column).2 =
    row * m.side + column := by
  rw [landing, Nat.add_mul, Nat.add_assoc, Nat.div_add_mod']

/-- The flat index tells where a row and a column land. -/
theorem landing_eq (h : 0 < m.side) : m.landing row column =
    ((row * m.side + column) / m.side, (row * m.side + column) % m.side) := by
  rw [landing, Nat.mul_comm row, Nat.mul_add_div h, Nat.mul_add_mod]

theorem get?_landing :
    m.get? (m.landing row column).1 (m.landing row column).2 = m.get? row column := by
  rw [get?, get?, index_landing]

/-- **Nothing is read exactly when the row of the landing is past the last one.** -/
theorem get?_eq_none_iff : m.get? row column = none ↔ m.side ≤ row + column / m.side := by
  rw [get?, Array.getElem?_eq_none_iff, m.bytes_size]
  rcases Nat.eq_zero_or_pos m.side with hzero | hpos
  · simp [hzero]
  · rw [← Nat.le_div_iff_mul_le hpos, Nat.mul_comm row, Nat.mul_add_div hpos]

/-- The positions of the square are read in range. -/
theorem exists_get? (hr : row < m.side) (hc : column < m.side) :
    ∃ b, m.get? row column = some b := by
  have hread : m.get? row column ≠ none := by
    rw [ne_eq, get?_eq_none_iff, Nat.div_eq_of_lt hc, Nat.add_zero]
    exact Nat.not_le.2 hr
  exact Option.ne_none_iff_exists'.1 hread

/-- **Read row by row, the positions of the square give the bytes in their order.** -/
theorem map_get?_squares :
    ((squares m.side).map fun p => m.get? p.1 p.2) = m.bytes.toList.map some := by
  refine List.ext_getElem (by simp [squares, m.bytes_size]) fun k hk hk' => ?_
  have hlt : k < m.bytes.size := by simpa using hk'
  simp [squares, get?, Nat.div_add_mod', hlt]

/-- What is read comes from the same place exactly when it lands at the same position. -/
theorem index_eq_iff (h : m.get? row column ≠ none) :
    row * m.side + column = row' * m.side + column' ↔
      m.landing row column = m.landing row' column' := by
  have hread : row + column / m.side < m.side := Nat.not_le.1 (mt get?_eq_none_iff.2 h)
  have hpos : 0 < m.side := Nat.zero_lt_of_lt hread
  constructor
  · intro hindex
    rw [landing_eq hpos, landing_eq hpos, hindex]
  · intro hlanding
    rw [← index_landing, hlanding, index_landing]

/-- **What is read outside the square** is a column past the end of its row, with rows left below
it. -/
theorem read_outside_iff :
    (m.get? row column ≠ none ∧ ¬ (row < m.side ∧ column < m.side)) ↔
      m.side ≤ column ∧ row + column / m.side < m.side := by
  rw [ne_eq, get?_eq_none_iff, Nat.not_le]
  constructor
  · rintro ⟨hread, hout⟩
    have hrow : row < m.side := Nat.lt_of_le_of_lt (Nat.le_add_right _ _) hread
    exact ⟨by omega, hread⟩
  · rintro ⟨hcolumn, hread⟩
    exact ⟨hread, by omega⟩

/-! ### The index in machine words -/

/-- What a program does about a number that does not fit a word. -/
inductive Overflow where
  | stops
  | wraps
deriving DecidableEq, Repr

/-- The word for a number, unless it does not fit and the program stops. -/
def Overflow.word? (o : Overflow) (n : Nat) : Option UInt64 :=
  if n < UInt64.size ∨ o = .wraps then some (.ofNat n) else none

/-- The byte at a row and a column, with the product and the sum of the index in words. -/
def readWords? (m : HeatMap) (o : Overflow) (row column : UInt64) : Option UInt8 := do
  let start ← o.word? (row.toNat * m.side)
  let k ← o.word? (start.toNat + column.toNat)
  m.bytes[k.toNat]?

variable {o : Overflow}

theorem Overflow.word?_eq {n : Nat} (h : n < UInt64.size) : o.word? n = some (.ofNat n) :=
  if_pos (.inl h)

/-- An index that fits a word is computed exactly. -/
theorem readWords?_eq {row column : UInt64}
    (h : row.toNat * m.side + column.toNat < UInt64.size) :
    m.readWords? o row column = m.get? row.toNat column.toNat := by
  have hstart : (UInt64.ofNat (row.toNat * m.side)).toNat = row.toNat * m.side :=
    UInt64.toNat_ofNat_of_lt' (by omega)
  rw [readWords?, Overflow.word?_eq (by omega), Option.bind_eq_bind, Option.bind_some, hstart,
    Overflow.word?_eq h, Option.bind_some, UInt64.toNat_ofNat_of_lt' h, get?]

/-- An index that does not fit is past the end of any heat map in memory. -/
theorem readWords?_stops (hroom : m.side * m.side ≤ greatestSize) (row column : UInt64) :
    m.readWords? .stops row column = m.get? row.toNat column.toNat := by
  by_cases hfits : row.toNat * m.side + column.toNat < UInt64.size
  · exact readWords?_eq hfits
  · have hnone : m.get? row.toNat column.toNat = none := by
      rw [get?, Array.getElem?_eq_none_iff, m.bytes_size]
      simp only [greatestSize, UInt64.size] at hroom hfits
      omega
    rw [hnone, readWords?]
    by_cases hstart : row.toNat * m.side < UInt64.size
    · rw [Overflow.word?_eq hstart, Option.bind_eq_bind, Option.bind_some,
        UInt64.toNat_ofNat_of_lt' hstart]
      simp [Overflow.word?, hfits]
    · simp [Overflow.word?, hstart]

/-- In the square the index fits a word. -/
theorem index_fits (hroom : m.side * m.side ≤ greatestSize) (hr : row < m.side)
    (hc : column < m.side) : row * m.side + column < UInt64.size := by
  have hlt := Tile.index_lt hr hc
  simp only [greatestSize] at hroom
  simp only [UInt64.size]
  omega

/-! ### What is read -/

/-- **What a row and a column give.** The positions of the square, row by row, give the bytes, each
its own. Outside the square a row and a column give what the position gives where they land, and
nothing is read if that lies below the last row. So what is read outside the square are columns past
the end of a row with rows left below it. The index is exact in the square, and wherever the program
stops at words that do not fit. -/
theorem reading_outcome (m : HeatMap) :
    ((squares m.side).map fun p => m.get? p.1 p.2) = m.bytes.toList.map some ∧
    (∀ row column, column < m.side → m.landing row column = (row, column)) ∧
    (∀ row column, m.get? row column = none ↔ m.side ≤ (m.landing row column).1) ∧
    (∀ row column, m.get? row column =
      m.get? (m.landing row column).1 (m.landing row column).2) ∧
    (∀ row column, (m.get? row column ≠ none ∧ ¬ (row < m.side ∧ column < m.side)) ↔
      m.side ≤ column ∧ row + column / m.side < m.side) ∧
    (∀ row column row' column', m.get? row column ≠ none →
      (row * m.side + column = row' * m.side + column' ↔
        m.landing row column = m.landing row' column')) ∧
    (m.side * m.side ≤ greatestSize → ∀ row column : UInt64,
      m.readWords? .stops row column = m.get? row.toNat column.toNat ∧
      (row.toNat < m.side → column.toNat < m.side → ∀ o,
        m.readWords? o row column = m.get? row.toNat column.toNat)) := by
  refine ⟨map_get?_squares, fun _ _ => landing_inside, fun _ _ => get?_eq_none_iff,
    fun _ _ => get?_landing.symm, fun _ _ => read_outside_iff, fun _ _ _ _ => index_eq_iff, ?_⟩
  intro hroom row column
  exact ⟨readWords?_stops hroom row column,
    fun hr hc _ => readWords?_eq (index_fits hroom hr hc)⟩

/-- Four bytes: a column past the end of the first row is read in the second, one past the end of
the second nowhere, and in the square the index in words is exact even if it may wrap. -/
theorem reading_outcome_square :
    let m : HeatMap := ⟨2, #[1, 2, 3, 4], rfl⟩
    m.get? 0 3 = m.get? 1 1 ∧ (m.get? 0 3 ≠ none ∧ ¬ (0 < m.side ∧ 3 < m.side)) ∧
      m.get? 1 2 = none ∧ m.landing 0 1 = (0, 1) ∧
      (1 * m.side + 1 = 0 * m.side + 3 ↔ m.landing 1 1 = m.landing 0 3) ∧
      m.readWords? .wraps 1 1 = m.get? 1 1 := by
  intro m
  obtain ⟨-, hinside, hnone, hlanding, houtside, hsame, hwords⟩ := reading_outcome m
  have hland : m.landing 0 3 = (1, 1) := by decide
  have hread := (houtside 0 3).2 ⟨by decide, by decide⟩
  exact ⟨by rw [hlanding 0 3, hland], hread, (hnone 1 2).2 (by decide), hinside 0 1 (by decide),
    hsame 1 1 0 3 (by decide), (hwords (by decide) 1 1).2 (by decide) (by decide) .wraps⟩

/-- A column past the end of the first row gives the byte of the second row. -/
theorem reading_past_row_end :
    let m : HeatMap := ⟨2, #[1, 2, 3, 4], rfl⟩
    ¬ 2 < m.side ∧ m.get? 0 2 = some 3 ∧ m.get? 1 0 = some 3 ∧
      0 * m.side + 2 = 1 * m.side + 0 := by decide

/-- An index that wraps reads past the last row too. -/
example : (⟨2, #[1, 2, 3, 4], rfl⟩ : HeatMap).readWords? .wraps 0x8000000000000000 0 = some 1 := by
  decide

end HeatMap
end DiffusionMesh

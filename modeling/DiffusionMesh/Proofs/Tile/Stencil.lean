/-
# A step on a tile is a step on the padded tile

The padded tile is the current tile inside a ring made of its four incoming edges, a grid of two
more rows and columns. Rows and columns of it are counted from the ring, so the position `(i, j)` of
the tile is the place `(i + 1, j + 1)` of the grid:

```
   row 0            ·   incoming north   ·
   rows 1 … S     west      current     east
   row S + 1        ·   incoming south   ·
```

On this grid the step has no special cases: every position gets its next temperature from the places
above, below, right and left of it (`get?_update_next`), and the rim of the new tile is what is
staged for the neighbors (`getElem?_outgoing`). Nothing is read from the corners of the ring. Main
statement: `update_jacobi`.
-/

import DiffusionMesh.Proofs.Tile.Writes

namespace DiffusionMesh
namespace LocalState

variable {s : LocalState} {i j k : Nat}

/-- The temperature of the padded tile at a row and a column counted from the ring, zero in the
corners of the ring. -/
def paddedAt (s : LocalState) (row column : Nat) : Temperature :=
  if 1 ≤ column ∧ column ≤ s.size then
    if row = 0 then s.incoming.north.value (column - 1)
    else if row = s.size + 1 then s.incoming.south.value (column - 1)
    else s.current.value (row - 1) (column - 1)
  else if 1 ≤ row ∧ row ≤ s.size then
    if column = 0 then s.incoming.west.value (row - 1) else s.incoming.east.value (row - 1)
  else .zero

/-- The current tile inside the ring of its incoming edges. -/
def padded (s : LocalState) : Tile := Tile.ofFn (s.size + 2) s.paddedAt

theorem get?_padded (hi : i < s.size + 2) (hj : j < s.size + 2) :
    s.padded.get? i j = some (s.paddedAt i j) :=
  Tile.get?_ofFn _ hi hj

/-- Inside the ring is the tile. -/
theorem paddedAt_inside (hi : i < s.size) (hj : j < s.size) :
    s.paddedAt (i + 1) (j + 1) = s.current.value i j := by
  have hcolumn : 1 ≤ j + 1 ∧ j + 1 ≤ s.size := by omega
  rw [paddedAt, if_pos hcolumn, if_neg (by omega), if_neg (by omega), Nat.add_sub_cancel,
    Nat.add_sub_cancel]

/-- The four sides of the ring are the incoming edges. -/
theorem paddedAt_ring (hk : k < s.size) :
    s.paddedAt 0 (k + 1) = s.incoming.north.value k ∧
      s.paddedAt (s.size + 1) (k + 1) = s.incoming.south.value k ∧
      s.paddedAt (k + 1) (s.size + 1) = s.incoming.east.value k ∧
      s.paddedAt (k + 1) 0 = s.incoming.west.value k := by
  have hplace : 1 ≤ k + 1 ∧ k + 1 ≤ s.size := by omega
  refine ⟨?_, ?_, ?_, ?_⟩
  · rw [paddedAt, if_pos hplace, if_pos rfl, Nat.add_sub_cancel]
  · rw [paddedAt, if_pos hplace, if_neg (by omega), if_pos rfl, Nat.add_sub_cancel]
  · rw [paddedAt, if_neg (by omega), if_pos hplace, if_neg (by omega), Nat.add_sub_cancel]
  · rw [paddedAt, if_neg (by omega), if_pos hplace, if_pos rfl, Nat.add_sub_cancel]

/-- **The four places around a position** hold what the step reads there: the position beside it, or
on the rim of the tile the incoming edge. -/
theorem paddedAt_around (hi : i < s.size) (hj : j < s.size) :
    s.paddedAt i (j + 1) = s.neighbor i j .north ∧
      s.paddedAt (i + 2) (j + 1) = s.neighbor i j .south ∧
      s.paddedAt (i + 1) (j + 2) = s.neighbor i j .east ∧
      s.paddedAt (i + 1) j = s.neighbor i j .west := by
  simp only [neighbor]
  refine ⟨?_, ?_, ?_, ?_⟩
  · rcases i with _ | i
    · exact (paddedAt_ring hj).1
    · exact paddedAt_inside (by omega) hj
  · split
    · next hlast =>
      rw [show i + 2 = s.size + 1 by omega]
      exact (paddedAt_ring hj).2.1
    · exact paddedAt_inside (by omega) hj
  · split
    · next hlast =>
      rw [show j + 2 = s.size + 1 by omega]
      exact (paddedAt_ring hi).2.2.1
    · exact paddedAt_inside hi (by omega)
  · rcases j with _ | j
    · exact (paddedAt_ring hi).2.2.2
    · exact paddedAt_inside hi (by omega)

/-- What a step computes and stages, unless the tile has no positions. -/
theorem update_of_pos (h : 0 < s.size) : s.update = { s with
    next := Tile.ofFn s.size s.nextAt
    outgoing := .ofFn (borderOf (Tile.ofFn s.size s.nextAt)) } := by
  rw [update, if_neg (by omega)]

/-- A place of an outgoing edge holds the new temperature on that rim of the tile. -/
theorem getElem?_outgoing (hk : k < s.size) (d : Direction) : (s.update.outgoing.get d)[k]? =
    s.update.next.get? (edgeSpot s.size k d).1 (edgeSpot s.size k d).2 := by
  obtain ⟨hr, hc⟩ := edgeSpot_lt hk d
  rw [update_of_pos (by omega)]
  simp only [Compass.get_ofFn]
  rw [Edge.getElem?_eq_value ((size_borderOf _ d).symm ▸ hk), borderOf_eq]
  refine (congrArg some (Edge.value_ofFn (fun k => (Tile.ofFn s.size s.nextAt).value
    (edgeSpot s.size k d).1 (edgeSpot s.size k d).2) hk)).trans ?_
  exact (Tile.get?_eq_value (t := Tile.ofFn s.size s.nextAt) hr hc).symm

/-- A step keeps the size of the tile under construction and of the outgoing edges. -/
theorem size_update (h : s.Fits) :
    s.update.next.size = s.size ∧ ∀ d, (s.update.outgoing.get d).size = s.size := by
  rcases Nat.eq_zero_or_pos s.size with hzero | hpos
  · rw [update, if_pos hzero]
    exact ⟨h.next, h.outgoing⟩
  · rw [update_of_pos hpos]
    refine ⟨rfl, fun d => ?_⟩
    rw [Compass.get_ofFn]
    exact size_borderOf _ d

/-- The new tile and the four places of the padded tile that a position is computed from. -/
theorem get?_update_next (hi : i < s.size) (hj : j < s.size) :
    ∃ north south east west,
      s.padded.get? i (j + 1) = some north ∧ s.padded.get? (i + 2) (j + 1) = some south ∧
      s.padded.get? (i + 1) (j + 2) = some east ∧ s.padded.get? (i + 1) j = some west ∧
      s.update.next.get? i j =
        some (nextTemperature (s.current.value i j) north south east west) := by
  obtain ⟨hnorth, hsouth, heast, hwest⟩ := paddedAt_around hi hj
  refine ⟨_, _, _, _, get?_padded (by omega) (by omega), get?_padded (by omega) (by omega),
    get?_padded (by omega) (by omega), get?_padded (by omega) (by omega), ?_⟩
  rw [hnorth, hsouth, heast, hwest, update_of_pos (by omega)]
  exact Tile.get?_ofFn _ hi hj

/-- A tile of one position stages its temperature on all four sides. -/
theorem outgoing_of_single (h : s.Fits) (hone : s.size = 1) :
    ∃ v, s.update.next.get? 0 0 = some v ∧ ∀ d, s.update.outgoing.get d = #[v] := by
  obtain ⟨_, _, _, _, -, -, -, -, hnext⟩ := get?_update_next (s := s) (i := 0) (j := 0)
    (by omega) (by omega)
  refine ⟨_, hnext, fun d => Array.ext_getElem? fun k => ?_⟩
  rcases k with _ | k
  · have hspot : edgeSpot 1 0 d = (0, 0) := by cases d <;> rfl
    rw [getElem?_outgoing (by omega), hone, hspot, hnext]
    rfl
  · rw [Array.getElem?_eq_none (by rw [(size_update h).2 d]; omega),
      Array.getElem?_eq_none (by simp)]

/-- **A step is one Jacobi step of the padded tile.** Position by position the loop stays in range
and gives what `update` does: every position gets its next temperature from its old one and the four
places around it on the padded tile, as it was before the step; the first and last row and column of
the new tile are staged; and the current tile and the incoming edges stay as they are. A tile of one
position stages its temperature on all four sides. -/
theorem update_jacobi (h : s.Fits) :
    s.update? = some s.update ∧
    s.update.current = s.current ∧ s.update.incoming = s.incoming ∧
    (s.update.next.size = s.size ∧ ∀ i j, i < s.size → j < s.size →
      ∃ old north south east west, s.current.get? i j = some old ∧
        s.padded.get? i (j + 1) = some north ∧ s.padded.get? (i + 2) (j + 1) = some south ∧
        s.padded.get? (i + 1) (j + 2) = some east ∧ s.padded.get? (i + 1) j = some west ∧
        s.update.next.get? i j = some (nextTemperature old north south east west)) ∧
    ((∀ d, (s.update.outgoing.get d).size = s.size) ∧ ∀ k, k < s.size →
      s.update.outgoing.north[k]? = s.update.next.get? 0 k ∧
      s.update.outgoing.south[k]? = s.update.next.get? (s.size - 1) k ∧
      s.update.outgoing.west[k]? = s.update.next.get? k 0 ∧
      s.update.outgoing.east[k]? = s.update.next.get? k (s.size - 1)) ∧
    (s.size = 1 → ∃ v, s.update.next.get? 0 0 = some v ∧
      ∀ d, s.update.outgoing.get d = #[v]) := by
  refine ⟨update?_eq h, ?_, ?_, ⟨(size_update h).1, fun i j hi hj => ?_⟩,
    ⟨(size_update h).2, fun k hk => ⟨?_, ?_, ?_, ?_⟩⟩, outgoing_of_single h⟩
  · rw [update]
    split <;> rfl
  · rw [update]
    split <;> rfl
  · obtain ⟨north, south, east, west, hread⟩ := get?_update_next hi hj
    exact ⟨_, north, south, east, west, Tile.get?_eq_value hi hj, hread⟩
  · exact getElem?_outgoing hk .north
  · exact getElem?_outgoing hk .south
  · exact getElem?_outgoing hk .west
  · exact getElem?_outgoing hk .east

/-- A state of side two in which no two temperatures that a step reads are equal. -/
def uneven : LocalState where
  current := .ofFn 2 fun row column => .ofDegrees (Int32.ofNat (10 + 20 * row + 7 * column))
  next := .zeros 2
  incoming := ⟨#[⟨-400⟩, ⟨90⟩], #[⟨5⟩, ⟨6⟩], #[⟨70⟩, ⟨-8⟩], #[⟨1⟩, ⟨2000⟩]⟩
  outgoing := .const (.filled 2 .zero)

theorem update_jacobi_uneven : uneven.Fits ∧ uneven.update? = some uneven.update ∧
    uneven.padded.get? 1 3 = some ⟨70⟩ ∧ uneven.padded.get? 2 0 = some ⟨2000⟩ ∧
    uneven.update.outgoing.north[1]? = uneven.update.next.get? 0 1 ∧
    uneven.update.outgoing.west[1]? = uneven.update.next.get? 1 0 := by
  have hfits : uneven.Fits := by
    constructor
    · rfl
    · intro d
      cases d <;> rfl
    · intro d
      cases d <;> rfl
  obtain ⟨hloop, -, -, -, ⟨-, hstaged⟩, -⟩ := update_jacobi hfits
  obtain ⟨hnorth, -, hwest, -⟩ := hstaged 1 (by decide)
  exact ⟨hfits, hloop, by rfl, by rfl, hnorth, hwest⟩

end LocalState
end DiffusionMesh

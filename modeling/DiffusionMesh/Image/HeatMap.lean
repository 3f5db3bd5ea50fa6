/-
# Heat maps

A heat map is a square of temperature bytes, row by row. It is put together from result words,
which may come in any order but have to cover every position exactly once.

Main statements: `getD_fill`, filling one slot leaves all others as they were; `diff_self`, a heat
map does not differ from itself.
-/

import DiffusionMesh.Failure
import DiffusionMesh.Text.Binary64

namespace DiffusionMesh

/-- A square of temperature bytes, row by row. -/
structure HeatMap where
  side : Nat
  bytes : Array UInt8
  bytes_size : bytes.size = side * side
deriving DecidableEq, Repr

namespace HeatMap

/-- The greatest number of bytes that one piece of memory has. -/
def greatestSize : Nat := 0x7fffffffffffffff

/-- Puts a byte into a slot, behind as many empty slots as that takes. -/
def fill (slots : Array (Option UInt8)) (k : Nat) (b : UInt8) : Array (Option UInt8) :=
  (slots ++ Array.replicate (k + 1 - slots.size) none).setIfInBounds k (some b)

/-- One slot is filled, and all others stay as they were. -/
theorem getD_fill (slots : Array (Option UInt8)) (k j : Nat) (b : UInt8) :
    (fill slots k b).getD j none = if j = k then some b else slots.getD j none := by
  simp only [fill, Array.getD_eq_getD_getElem?, Array.getElem?_setIfInBounds, Array.size_append,
    Array.size_replicate, Array.getElem?_append, Array.getElem?_replicate]
  grind

/-- The slot of a position. Words name no column beyond the greatest coordinate, so a row takes no
more slots than that. -/
def slot (side row column : Nat) : Nat :=
  row * min side (ResultWord.maxCoordinate.toNat + 1) + column

/-- Puts one result word into its slot. -/
def place (side : Nat) (slots : Array (Option UInt8)) (w : ResultWord) :
    Except ResultFault (Array (Option UInt8)) :=
  let row := w.row.toNat
  let column := w.column.toNat
  if row < side ∧ column < side then
    match slots.getD (slot side row column) none with
    | some _ => .error (.duplicate row column)
    | none => .ok (fill slots (slot side row column) w.temperature)
  else .error (.outside w side)

/-- The heat map that result words make up, if there is memory for so many positions. The number of
positions is taken to be one of 64 bits, as it is for every side below 2 to the power of 32. -/
def ofWords (side : Nat) (words : List ResultWord) : Except ResultFault HeatMap := do
  if greatestSize < side * side then
    throw (.noRoom side)
  let slots ← words.foldlM (place side) #[]
  if words.length ≠ side * side then
    throw (.wordCount (side * side) words.length)
  return {
    side := side
    bytes := Array.ofFn fun k : Fin (side * side) =>
      (slots.getD (slot side (k.val / side) (k.val % side)) none).getD 0
    bytes_size := Array.size_ofFn }

/-- The heat map of the given bytes, row by row. As for words, the number of positions is taken to be
one of 64 bits; the products of greater sides would overflow. -/
def ofBytes (side : Nat) (bytes : Array UInt8) : Except ResultFault HeatMap :=
  if h : bytes.size = side * side then .ok ⟨side, bytes, h⟩
  else .error (.byteCount (side * side) bytes.size)

variable (m : HeatMap)

/-- The byte at the flat index of a row and a column, if the index is in range. -/
def get? (row column : Nat) : Option UInt8 := m.bytes[row * m.side + column]?

/-- The positions at which two maps differ, row by row, with the bytes of both. Positions are
counted with the side of the first map. -/
def diff (other : HeatMap) : List (Nat × Nat × UInt8 × UInt8) :=
  ((m.bytes.zip other.bytes).toList.zipIdx.filter fun ((a, b), _) => a ≠ b).map
    fun ((a, b), k) => (k / m.side, k % m.side, a, b)

/-- **A heat map does not differ from itself.** -/
theorem diff_self : m.diff m = [] := by
  unfold diff
  rw [List.map_eq_nil_iff, List.filter_eq_nil_iff]
  rintro ⟨⟨a, b⟩, k⟩ hmem
  have hzip : (a, b) ∈ (m.bytes.zip m.bytes).toList := List.fst_mem_of_mem_zipIdx hmem
  rw [Array.toList_zip, List.zip, List.zipWith_self, List.mem_map] at hzip
  obtain ⟨c, _, hc⟩ := hzip
  cases hc
  simp

/-- The sum of all bytes. -/
def total : Nat := m.bytes.foldl (fun sum b => sum + b.toNat) 0

/-- The mean byte, rounded to a number of the 64-bit format. The empty map has mean zero. -/
def mean : Text.Binary64 := .ofRatio false m.total m.bytes.size

/-- The result is as expected, or where it first is not. -/
def checkAgainst (expected : HeatMap) : Except ResultFault Unit :=
  match m.diff expected with
  | [] => .ok ()
  | (row, column, ours, theirs) :: rest =>
    .error (.differs (rest.length + 1) row column ours theirs)

end HeatMap
end DiffusionMesh

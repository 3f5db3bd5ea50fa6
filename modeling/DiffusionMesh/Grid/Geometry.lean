/-
# The square mesh

The cells of a mesh form a square of side `2ᵏ`, so there are `4ᵏ` of them. The number of a cell
is split at bit `k`: the low part is its column, the high part its row.

| | column | row |
| --- | --- | --- |
| number | bits `0 … k-1` | bits `k … 2k-1` |

Main statement: `ofCells?_eq_none_iff`, a cell count is refused exactly when it is no power of
four.
-/

import DiffusionMesh.Failure
import DiffusionMesh.Grid.Compass

namespace DiffusionMesh

/-- A square of `4 ^ logSide` cells. -/
structure Geometry where
  cells : UInt32
  logSide : UInt32
  cells_eq : cells.toNat = Nat.pow 4 logSide.toNat
deriving DecidableEq, Repr

namespace Geometry

/-- A power of four is a power of two with twice the exponent. -/
theorem fourPow_eq (k : Nat) : Nat.pow 4 k = Nat.pow 2 (2 * k) := Nat.pow_mul 2 2 k |>.symm

/-- The mesh of so many cells: their number has to be a power of two with an even exponent. -/
def ofCells? (cells : UInt32) : Option Geometry :=
  let log := cells.toNat.log2
  if h : cells.toNat = Nat.pow 2 log ∧ log % 2 = 0 then
    some ⟨cells, UInt32.ofNat (log / 2), by
      have hlt : Nat.pow 2 log < Nat.pow 2 32 := by
        rw [← h.1]
        exact cells.toNat_lt
      have hlog : log < 32 := (Nat.pow_lt_pow_iff_right (by decide : 1 < 2)).1 hlt
      have hhalf : (UInt32.ofNat (log / 2)).toNat = log / 2 :=
        UInt32.toNat_ofNat_of_lt' (by have : UInt32.size = 4294967296 := rfl; omega)
      have heven : 2 * (log / 2) = log := by omega
      have hfour := fourPow_eq (log / 2)
      rw [heven] at hfour
      rw [hhalf, h.1, hfour]⟩
  else none

/-- The mesh of so many cells, or the reason why there is none. -/
def ofCells (cells : UInt32) : Except Failure Geometry :=
  match ofCells? cells with
  | some geometry => .ok geometry
  | none => .error (.invalidCellCount cells)

variable (g : Geometry)

/-- The number of cells in a row. -/
def side : UInt32 := 1 <<< g.logSide

/-- The numbers of the first `n` cells, or of all if there are fewer. -/
def firstIds (n : Nat) : List CellId :=
  (List.range (min n g.cells.toNat)).map fun i => ⟨UInt32.ofNat i⟩

/-- The numbers of all cells. -/
def ids : List CellId := g.firstIds g.cells.toNat

/-- The place of a cell, or the complaint that there is no such cell. -/
def position (id : CellId) : Except Failure Position :=
  if id.index < g.cells then .ok ⟨id.index &&& (g.side - 1), id.index >>> g.logSide⟩
  else .error (.cellOutOfRange id.index g.cells)

/-- The cell at a place of the mesh. -/
def cellAt? (p : Position) : Option CellId :=
  if p.x < g.side ∧ p.y < g.side then some ⟨(p.y <<< g.logSide) ||| p.x⟩ else none

/-- The place one step away, unless the step leaves the mesh. -/
def step? (p : Position) : Direction → Option Position
  | .north => if 0 < p.y then some { p with y := p.y - 1 } else none
  | .south => if p.y < g.side - 1 then some { p with y := p.y + 1 } else none
  | .east => if p.x < g.side - 1 then some { p with x := p.x + 1 } else none
  | .west => if 0 < p.x then some { p with x := p.x - 1 } else none

/-- The neighbors of a cell; none on a side that is a side of the mesh. -/
def neighbors (id : CellId) : Except Failure (Compass (Option CellId)) := do
  let p ← g.position id
  return .ofFn fun d => (g.step? p d).bind g.cellAt?

/-- **A cell count is refused exactly when it is no power of four.** -/
theorem ofCells?_eq_none_iff {cells : UInt32} :
    ofCells? cells = none ↔ ¬ ∃ k : Nat, cells.toNat = Nat.pow 4 k := by
  unfold ofCells?
  constructor
  · rintro h ⟨k, hk⟩
    have hlog : (Nat.pow 2 (2 * k)).log2 = 2 * k := Nat.log2_two_pow
    rw [fourPow_eq] at hk
    simp only [hk, hlog, Nat.mul_mod_right, and_self, dite_true, reduceCtorEq] at h
  · intro h
    rw [dif_neg]
    rintro ⟨hpow, heven⟩
    refine h ⟨cells.toNat.log2 / 2, ?_⟩
    rw [fourPow_eq, show 2 * (cells.toNat.log2 / 2) = cells.toNat.log2 by omega]
    exact hpow

end Geometry
end DiffusionMesh

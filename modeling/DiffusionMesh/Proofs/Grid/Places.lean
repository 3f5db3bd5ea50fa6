/-
# Cells, places and neighbors

A mesh of side `L` numbers its cells from 0 to `L · L - 1`. Numbers and places belong together one
to one, and a step from one cell to the next is a step of one in a row or a column:

| | |
| --- | --- |
| place of a cell | a number below `L · L`, or the complaint that there is no such cell |
| cell at a place | column and row below `L`, or none |
| neighbor of a cell | the cell one step away, or none where the step leaves the square |

Numbers, columns and rows are 32-bit words, and all of this is done by shifts and masks. `Checked` is
the same arithmetic, stopped where an operation would overflow or a shift would lose a bit; in a mesh,
which has `2³⁰` cells at most, none ever does (`checkedNeighbors_eq`).

Main statement: `ofCells_lattice`.
-/

import DiffusionMesh.Proofs.Grid.Lattice

namespace DiffusionMesh

/-! ### Word arithmetic without overflow -/

namespace Checked

/-- The sum, unless it wraps. -/
def add (a b : UInt32) : Option UInt32 :=
  if a.toNat + b.toNat < UInt32.size then some (a + b) else none

/-- The difference, unless it wraps. -/
def sub (a b : UInt32) : Option UInt32 := if b ≤ a then some (a - b) else none

/-- The shift to the left, unless the amount is too large or a bit is lost. -/
def shiftLeft (a n : UInt32) : Option UInt32 :=
  if n.toNat < 32 ∧ a.toNat <<< n.toNat < UInt32.size then some (a <<< n) else none

/-- The shift to the right, unless the amount is too large. -/
def shiftRight (a n : UInt32) : Option UInt32 := if n.toNat < 32 then some (a >>> n) else none

variable {a b n : UInt32}

theorem add_one (h : a < b) : add a 1 = some (a + 1) := by
  have hlt := UInt32.lt_iff_toNat_lt.1 h
  have hb : b.toNat < UInt32.size := b.toNat_lt
  exact if_pos (by rw [UInt32.toNat_one]; omega)

theorem sub_one (h : 0 < a) : sub a 1 = some (a - 1) := by
  have hlt := UInt32.lt_iff_toNat_lt.1 h
  refine if_pos (UInt32.le_iff_toNat_le.2 ?_)
  rw [UInt32.toNat_one]
  exact hlt

end Checked

namespace Geometry

variable (g : Geometry)

/-- The number of cells in a row, without overflow. -/
def checkedSide : Option UInt32 := Checked.shiftLeft 1 g.logSide

/-- The place of a cell, without overflow. -/
def checkedPosition (id : CellId) : Option (Except Failure Position) :=
  if id.index < g.cells then do
    let side ← g.checkedSide
    let mask ← Checked.sub side 1
    let y ← Checked.shiftRight id.index g.logSide
    return .ok ⟨id.index &&& mask, y⟩
  else some (.error (.cellOutOfRange id.index g.cells))

/-- The cell at a place, without overflow. -/
def checkedCellAt (p : Position) : Option (Option CellId) := do
  let side ← g.checkedSide
  if p.x < side ∧ p.y < side then
    let high ← Checked.shiftLeft p.y g.logSide
    return some ⟨high ||| p.x⟩
  else return none

/-- The place one step away, without overflow. -/
def checkedStep (last : UInt32) (p : Position) : Direction → Option (Option Position)
  | .north => if 0 < p.y then (Checked.sub p.y 1).map fun y => some ⟨p.x, y⟩ else some none
  | .south => if p.y < last then (Checked.add p.y 1).map fun y => some ⟨p.x, y⟩ else some none
  | .east => if p.x < last then (Checked.add p.x 1).map fun x => some ⟨x, p.y⟩ else some none
  | .west => if 0 < p.x then (Checked.sub p.x 1).map fun x => some ⟨x, p.y⟩ else some none

/-- The neighbor in a direction, without overflow. -/
def checkedNeighbor (last : UInt32) (p : Position) (d : Direction) : Option (Option CellId) := do
  match ← checkedStep last p d with
  | some q => g.checkedCellAt q
  | none => return none

/-- The neighbors of a cell, without overflow. -/
def checkedNeighbors (id : CellId) : Option (Except Failure (Compass (Option CellId))) := do
  match ← g.checkedPosition id with
  | .error cause => return .error cause
  | .ok p =>
    let side ← g.checkedSide
    let last ← Checked.sub side 1
    let north ← g.checkedNeighbor last p .north
    let south ← g.checkedNeighbor last p .south
    let east ← g.checkedNeighbor last p .east
    let west ← g.checkedNeighbor last p .west
    return .ok ⟨north, south, east, west⟩

theorem checkedSide_eq : g.checkedSide = some g.side := by
  have hlog := g.logSide_lt
  have hspan := g.span_le
  refine if_pos ⟨by omega, ?_⟩
  rw [UInt32.toNat_one, Nat.one_shiftLeft, ← span]
  exact Nat.lt_of_le_of_lt hspan (by decide)

theorem checkedLast_eq : Checked.sub g.side 1 = some (g.side - 1) := if_pos g.one_le_side

theorem checkedPosition_eq (id : CellId) : g.checkedPosition id = some (g.position id) := by
  have hlog := g.logSide_lt
  have hrow : Checked.shiftRight id.index g.logSide = some (id.index >>> g.logSide) :=
    if_pos (by omega)
  unfold checkedPosition position
  split
  · simp [checkedSide_eq, checkedLast_eq, hrow]
  · rfl

theorem checkedCellAt_eq (p : Position) : g.checkedCellAt p = some (g.cellAt? p) := by
  have hlog := g.logSide_lt
  simp only [checkedCellAt, checkedSide_eq, Option.bind_eq_bind, Option.bind_some, cellAt?]
  split
  · next h =>
    -- the row is shifted by as many bits as a column has, which makes it a number of the mesh
    have hrow := UInt32.lt_iff_toNat_lt.1 h.2
    rw [side_toNat] at hrow
    have hnumber : p.y.toNat <<< g.logSide.toNat < UInt32.size := by
      rw [Nat.shiftLeft_eq, ← span]
      exact Nat.lt_trans (cellNumber_lt g.span_pos hrow) g.cells.toNat_lt
    have hshift : Checked.shiftLeft p.y g.logSide = some (p.y <<< g.logSide) :=
      if_pos ⟨by omega, hnumber⟩
    rw [hshift]
    rfl
  · rfl

theorem checkedStep_eq (p : Position) (d : Direction) :
    checkedStep (g.side - 1) p d = some (g.step? p d) := by
  cases d <;> simp only [checkedStep, step?] <;> split
  case north.isTrue h | west.isTrue h => rw [Checked.sub_one h, Option.map_some]
  case south.isTrue h | east.isTrue h => rw [Checked.add_one h, Option.map_some]
  all_goals rfl

theorem checkedNeighbor_eq (p : Position) (d : Direction) :
    g.checkedNeighbor (g.side - 1) p d = some ((g.step? p d).bind g.cellAt?) := by
  rw [checkedNeighbor, checkedStep_eq]
  cases g.step? p d with
  | none => rfl
  | some q => exact g.checkedCellAt_eq q

/-- **Neighbors are computed without overflow.** -/
theorem checkedNeighbors_eq (id : CellId) : g.checkedNeighbors id = some (g.neighbors id) := by
  rw [checkedNeighbors, checkedPosition_eq, neighbors]
  cases g.position id with
  | error cause => rfl
  | ok p =>
    simp only [checkedSide_eq, checkedLast_eq, checkedNeighbor_eq, Option.bind_eq_bind,
      Option.bind_some]
    rfl

/-! ### Numbers and places -/

variable {g} {id a b : CellId} {p q : Position} {d : Direction}

theorem index_lt_iff : id.index < g.cells ↔ id.index.toNat < g.cells.toNat :=
  UInt32.lt_iff_toNat_lt

theorem position_of_lt (h : id.index < g.cells) : g.position id =
    .ok ⟨UInt32.ofNat (g.column id.index.toNat), UInt32.ofNat (g.row id.index.toNat)⟩ := by
  have hposition := position_eq (index_lt_iff.1 h)
  rwa [UInt32.ofNat_toNat] at hposition

theorem position_of_not_lt (h : ¬ id.index < g.cells) :
    g.position id = .error (.cellOutOfRange id.index g.cells) := if_neg h

/-- A cell stands at the column and row of its number. -/
theorem position_eq_ok_iff : g.position id = .ok p ↔ id.index < g.cells ∧
    p.x.toNat = g.column id.index.toNat ∧ p.y.toNat = g.row id.index.toNat := by
  constructor
  · intro hp
    by_cases h : id.index < g.cells
    · rw [position_of_lt h] at hp
      obtain rfl := Except.ok.inj hp
      exact ⟨h, toNat_coordinate (g.column_lt _), toNat_coordinate (g.row_lt (index_lt_iff.1 h))⟩
    · rw [position_of_not_lt h] at hp
      cases hp
  · rintro ⟨h, hx, hy⟩
    rw [position_of_lt h, ← hx, ← hy, UInt32.ofNat_toNat, UInt32.ofNat_toNat]

/-- At a place stands the cell whose number is made up of column and row. -/
theorem cellAt?_eq_some_iff : g.cellAt? p = some id ↔ p.x.toNat < g.span ∧ p.y.toNat < g.span ∧
    id.index.toNat = g.cellNumber p.x.toNat p.y.toNat := by
  have hinside : p.x < g.side ∧ p.y < g.side ↔ p.x.toNat < g.span ∧ p.y.toNat < g.span := by
    rw [UInt32.lt_iff_toNat_lt, UInt32.lt_iff_toNat_lt, side_toNat]
  by_cases h : p.x < g.side ∧ p.y < g.side
  · obtain ⟨hx, hy⟩ := hinside.1 h
    have hcell := cellAt?_eq hx hy
    rw [UInt32.ofNat_toNat, UInt32.ofNat_toNat] at hcell
    rw [hcell, Option.some_inj]
    constructor
    · rintro rfl
      exact ⟨hx, hy, toNat_number (cellNumber_lt hx hy)⟩
    · rintro ⟨-, -, hnumber⟩
      rw [← hnumber, UInt32.ofNat_toNat]
  · rw [cellAt?, if_neg h]
    constructor
    · intro hnone
      cases hnone
    · rintro ⟨hx, hy, -⟩
      exact absurd (hinside.2 ⟨hx, hy⟩) h

/-- **The place of a cell and the cell at a place are inverse to each other.** -/
theorem position_eq_ok_iff_cellAt? : g.position id = .ok p ↔ g.cellAt? p = some id := by
  rw [position_eq_ok_iff, cellAt?_eq_some_iff, index_lt_iff]
  constructor
  · rintro ⟨h, hx, hy⟩
    rw [hx, hy, cellNumber_column_row]
    exact ⟨g.column_lt _, g.row_lt h, rfl⟩
  · rintro ⟨hx, hy, hnumber⟩
    rw [hnumber, column_cellNumber hx, row_cellNumber hx]
    exact ⟨cellNumber_lt hx hy, rfl, rfl⟩

theorem exists_position_iff : (∃ p, g.position id = .ok p) ↔ id.index < g.cells := by
  constructor
  · rintro ⟨p, hp⟩
    exact (position_eq_ok_iff.1 hp).1
  · exact fun h => ⟨_, position_of_lt h⟩

theorem exists_cellAt?_iff : (∃ id, g.cellAt? p = some id) ↔ p.x < g.side ∧ p.y < g.side := by
  rw [cellAt?]
  split
  · next h => exact ⟨fun _ => h, fun _ => ⟨_, rfl⟩⟩
  · next h =>
    constructor
    · rintro ⟨_, hnone⟩
      cases hnone
    · exact fun hp => absurd hp h

/-! ### Neighbors -/

end Geometry

/-- The step in a direction: how far the column and the row move. -/
def Direction.offset : Direction → Int × Int
  | .north => (0, -1)
  | .south => (0, 1)
  | .east => (1, 0)
  | .west => (-1, 0)

/-- Column and row of a place as integers, moved by a step. -/
def Position.shifted (p : Position) (d : Direction) : Int × Int :=
  (p.x.toNat + d.offset.1, p.y.toNat + d.offset.2)

/-- A place as a pair of integers. -/
def Position.point (p : Position) : Int × Int := (p.x.toNat, p.y.toNat)

theorem around_eq_some_iff {L x y x' y' : Nat} {d : Direction} (hx : x < L) (hy : y < L) :
    around L x y d = some (x', y') ↔ x' < L ∧ y' < L ∧
      ((x' : Int), (y' : Int)) = (x + d.offset.1, y + d.offset.2) := by
  cases d <;> simp only [around, Direction.offset, Prod.mk.injEq] <;> split <;>
    simp only [Option.some_inj, Prod.mk.injEq, reduceCtorEq, false_iff] <;> omega

namespace Geometry

variable {g : Geometry} {id a b : CellId} {p q : Position} {d : Direction}

/-- One cell has another as its neighbor in a direction. -/
def Adjoins (g : Geometry) (a : CellId) (d : Direction) (b : CellId) : Prop :=
  ∃ table, g.neighbors a = .ok table ∧ table.get d = some b

theorem neighbors_of_lt (h : a.index < g.cells) : g.neighbors a =
    .ok (.ofFn fun d => (g.mate a.index.toNat d).map fun j => ⟨UInt32.ofNat j⟩) := by
  have hneighbors := neighbors_eq (index_lt_iff.1 h)
  rwa [UInt32.ofNat_toNat] at hneighbors

theorem neighbors_of_not_lt (h : ¬ a.index < g.cells) :
    g.neighbors a = .error (.cellOutOfRange a.index g.cells) := by
  rw [neighbors, position_of_not_lt h]
  rfl

theorem map_mate_eq_some_iff {k : Nat} :
    (g.mate k d).map (fun j => (⟨UInt32.ofNat j⟩ : CellId)) = some b ↔
      g.mate k d = some b.index.toNat := by
  rw [Option.map_eq_some_iff]
  constructor
  · rintro ⟨j, hj, rfl⟩
    rw [hj, toNat_number (mate_lt hj).2]
  · intro h
    exact ⟨_, h, by rw [UInt32.ofNat_toNat]⟩

theorem adjoins_iff : g.Adjoins a d b ↔ g.mate a.index.toNat d = some b.index.toNat := by
  constructor
  · rintro ⟨table, htable, hb⟩
    by_cases h : a.index < g.cells
    · rw [neighbors_of_lt h] at htable
      obtain rfl := Except.ok.inj htable
      rwa [Compass.get_ofFn, map_mate_eq_some_iff] at hb
    · rw [neighbors_of_not_lt h] at htable
      cases htable
  · intro h
    refine ⟨_, neighbors_of_lt (index_lt_iff.2 (mate_lt h).1), ?_⟩
    rwa [Compass.get_ofFn, map_mate_eq_some_iff]

/-- **Neighbors are neighbors of each other**, in opposite directions. -/
theorem adjoins_opposite : g.Adjoins a d b ↔ g.Adjoins b d.opposite a := by
  rw [adjoins_iff, adjoins_iff]
  refine ⟨mate_symm, fun h => ?_⟩
  have hback := mate_symm h
  rwa [Direction.opposite_opposite] at hback

/-- **The neighbor in a direction stands one step away.** -/
theorem adjoins_iff_shifted (hp : g.position a = .ok p) :
    g.Adjoins a d b ↔ ∃ q, g.position b = .ok q ∧ q.point = p.shifted d := by
  obtain ⟨ha, hx, hy⟩ := position_eq_ok_iff.1 hp
  have hcolumn := g.column_lt a.index.toNat
  have hrow := g.row_lt (index_lt_iff.1 ha)
  rw [adjoins_iff, mate_eq_some_iff, around_eq_some_iff hcolumn hrow]
  constructor
  · rintro ⟨-, hb, -, -, hstep⟩
    refine ⟨_, position_of_lt (index_lt_iff.2 hb), ?_⟩
    rw [Position.point, toNat_coordinate (g.column_lt _), toNat_coordinate (g.row_lt hb), hstep,
      Position.shifted, hx, hy]
  · rintro ⟨q, hq, hstep⟩
    obtain ⟨hb, hqx, hqy⟩ := position_eq_ok_iff.1 hq
    rw [index_lt_iff] at ha hb
    rw [Position.point, Position.shifted, hqx, hqy, hx, hy] at hstep
    exact ⟨ha, hb, g.column_lt _, g.row_lt hb, hstep⟩

/-- Whether a pair of integers is a column and a row of the mesh. -/
def Inside (g : Geometry) (z : Int × Int) : Prop :=
  0 ≤ z.1 ∧ z.1 < g.side.toNat ∧ 0 ≤ z.2 ∧ z.2 < g.side.toNat

/-- A cell stands at every point of the mesh, and none elsewhere. -/
theorem exists_point_iff {z : Int × Int} :
    (∃ b q, g.position b = .ok q ∧ q.point = z) ↔ g.Inside z := by
  rw [Inside, side_toNat]
  constructor
  · rintro ⟨b, q, hq, rfl⟩
    obtain ⟨hb, hx, hy⟩ := position_eq_ok_iff.1 hq
    have hcolumn := g.column_lt b.index.toNat
    have hrow := g.row_lt (index_lt_iff.1 hb)
    simp only [Position.point, hx, hy]
    omega
  · rintro ⟨hx, hx', hy, hy'⟩
    have hcolumn : z.1.toNat < g.span := by omega
    have hrow : z.2.toNat < g.span := by omega
    refine ⟨_, _, position_eq_ok_iff_cellAt?.2 (cellAt?_eq hcolumn hrow), ?_⟩
    rw [Position.point, toNat_coordinate hcolumn, toNat_coordinate hrow, Int.toNat_of_nonneg hx,
      Int.toNat_of_nonneg hy]

theorem adjoins_of_neighbors {table : Compass (Option CellId)} (h : g.neighbors a = .ok table) :
    g.Adjoins a d b ↔ table.get d = some b := by
  constructor
  · rintro ⟨other, hother, hb⟩
    obtain rfl : table = other := Except.ok.inj (h.symm.trans hother)
    exact hb
  · exact fun hb => ⟨table, h, hb⟩

/-- The neighbors of a cell, direction by direction. -/
theorem exists_neighbors (hp : g.position a = .ok p) : ∃ table, g.neighbors a = .ok table ∧
    ∀ d, (∀ b, table.get d = some b ↔ ∃ q, g.position b = .ok q ∧ q.point = p.shifted d) ∧
      (table.get d = none ↔ ¬ g.Inside (p.shifted d)) := by
  have htable := neighbors_of_lt (position_eq_ok_iff.1 hp).1
  refine ⟨_, htable, fun d => ?_⟩
  have hget := fun b => (adjoins_of_neighbors (b := b) (d := d) htable).symm.trans
    (adjoins_iff_shifted hp)
  refine ⟨hget, ?_⟩
  rw [← exists_point_iff, Option.eq_none_iff_forall_ne_some, not_exists]
  exact forall_congr' fun b => not_congr (hget b)

/-! ### The square lattice -/

/-- The cells of a mesh form a square lattice. -/
structure Lattice (g : Geometry) : Prop where
  /-- There are as many cells as places. -/
  square : g.cells.toNat = g.side.toNat * g.side.toNat ∧ g.cells.toNat ≤ 2 ^ 30
  /-- Each cell has a place, and a number too large is named. -/
  placed : ∀ id, if id.index < g.cells then ∃ p, g.position id = .ok p
    else g.position id = .error (.cellOutOfRange id.index g.cells) ∧
      g.neighbors id = .error (.cellOutOfRange id.index g.cells)
  /-- Each place of the square has a cell, and no other place has one. -/
  settled : ∀ p, if p.x < g.side ∧ p.y < g.side then ∃ id, g.cellAt? p = some id
    else g.cellAt? p = none
  /-- A cell is the one at its place, and the place that of its cell. -/
  inverse : ∀ id p, g.position id = .ok p ↔ g.cellAt? p = some id
  /-- The neighbor in a direction stands one step away; there is none where the step leaves the
  square. -/
  beside : ∀ a p, g.position a = .ok p → ∃ table, g.neighbors a = .ok table ∧
    ∀ d, (∀ b, table.get d = some b ↔ ∃ q, g.position b = .ok q ∧ q.point = p.shifted d) ∧
      (table.get d = none ↔ ¬ g.Inside (p.shifted d))
  /-- Neighbors are neighbors of each other, in opposite directions. -/
  opposite : ∀ a d b, g.Adjoins a d b ↔ g.Adjoins b d.opposite a
  /-- No operation on words overflows. -/
  exact : g.checkedSide = some g.side ∧ (∀ id, g.checkedPosition id = some (g.position id)) ∧
    (∀ p, g.checkedCellAt p = some (g.cellAt? p)) ∧
    ∀ id, g.checkedNeighbors id = some (g.neighbors id)

theorem cells_le (g : Geometry) : g.cells.toNat ≤ 2 ^ 30 := by
  rw [cells_toNat]
  exact Nat.le_trans (Nat.mul_le_mul g.span_le g.span_le) (by decide)

theorem lattice (g : Geometry) : g.Lattice where
  square := ⟨by rw [cells_toNat, side_toNat], g.cells_le⟩
  placed id := by
    split
    · next h => exact exists_position_iff.2 h
    · next h => exact ⟨position_of_not_lt h, neighbors_of_not_lt h⟩
  settled p := by
    split
    · next h => exact exists_cellAt?_iff.2 h
    · next h => exact if_neg h
  inverse _ _ := position_eq_ok_iff_cellAt?
  beside _ _ := exists_neighbors
  opposite _ _ _ := adjoins_opposite
  exact := ⟨g.checkedSide_eq, g.checkedPosition_eq, g.checkedCellAt_eq, g.checkedNeighbors_eq⟩

/-- **A mesh has a power of four cells, which form a square lattice**: numbers and places belong
together one to one, the neighbor in a direction stands one step away, neighbors are neighbors of
each other, and no operation overflows, up to the largest mesh there is. -/
theorem ofCells_lattice (cells : UInt32) :
    ((∃ g, ofCells cells = .ok g) ↔ ∃ k : Nat, cells.toNat = 4 ^ k) ∧
    ∀ g, ofCells cells = .ok g → g.cells = cells ∧ g.Lattice :=
  ⟨exists_ofCells_iff, fun g h => ⟨ofCells_eq_ok h, g.lattice⟩⟩

/-- The largest mesh has `2³⁰` cells. The last one stands at column and row 32767, with nothing to
the east and its predecessor to the west. -/
theorem ofCells_lattice_largest :
    let g : Geometry := ⟨1073741824, 15, rfl⟩
    ofCells 1073741824 = .ok g ∧ g.position ⟨1073741823⟩ = .ok ⟨32767, 32767⟩ ∧
    g.Adjoins ⟨1073741823⟩ .west ⟨1073741822⟩ ∧
    ∃ table, g.neighbors ⟨1073741823⟩ = .ok table ∧ table.get .east = none := by
  intro g
  have hg : ofCells 1073741824 = .ok g := by decide
  obtain ⟨-, hlattice⟩ := (ofCells_lattice 1073741824).2 g hg
  have hlast : g.position ⟨1073741823⟩ = .ok ⟨32767, 32767⟩ := (hlattice.inverse _ _).2 (by decide)
  have hbefore : g.position ⟨1073741822⟩ = .ok ⟨32766, 32767⟩ := (hlattice.inverse _ _).2 (by decide)
  obtain ⟨table, htable, hget⟩ := hlattice.beside _ _ hlast
  refine ⟨hg, hlast, ⟨table, htable, ((hget .west).1 _).2 ⟨_, hbefore, by decide⟩⟩, table, htable,
    (hget .east).2.2 ?_⟩
  rintro ⟨-, hlt, -⟩
  exact absurd hlt (by decide)

end Geometry
end DiffusionMesh

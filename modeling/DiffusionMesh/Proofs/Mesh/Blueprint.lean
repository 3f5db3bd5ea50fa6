/-
# The plan of a mesh

Cell `k` of a mesh holds the part of the whole grid that begins below row `row k · S` and right of
column `column k · S`. What it is to send after its step of iteration `t` are the borders of that
part of the field of `t + 1`. These plans fit together: where a cell has a neighbor, the border of
the neighbor's tile is what lies just outside its own, and where it has none, the ring does.

Main statements: `abuts_heard`, and `Mesh.assembled`, a mesh begins as its plan has it.
-/

import DiffusionMesh.Mesh.Assembly
import DiffusionMesh.Proofs.Mesh.Layout
import DiffusionMesh.Proofs.Tile.Field

namespace DiffusionMesh
namespace Geometry

/-- The tile of a cell after `n` steps. -/
def tile (g : Geometry) (S : Nat) (b : Border) (k n : Nat) : Tile :=
  fieldTile S (g.span * S) b n (g.row k * S) (g.column k * S)

/-- The neighbors of a cell, by their numbers. -/
def neighborIds (g : Geometry) (k : Nat) : Compass (Option CellId) :=
  .ofFn fun d => (g.mate k d).map fun j => ⟨UInt32.ofNat j⟩

/-- The plan of a mesh. -/
def plan (g : Geometry) (S : Nat) (b : Border) (rounds : Nat) : Plan where
  rounds := rounds
  edgeLength := S
  mate := g.mate
  edges k t := .ofFn (LocalState.borderOf (g.tile S b k (t + 1)))
  initial k := (LocalState.initial S (g.neighborIds k) b).incoming
  mate_symm := mate_symm
  mate_ne := mate_ne
  size_edges k t d := by rw [Compass.get_ofFn, size_borderOf]; rfl

variable {g : Geometry} {S : Nat} {b : Border} {k j p : Nat} {d : Direction}

/-- What lies just outside a tile is the border of the tile there. -/
theorem brink_of_around {L x y x' y' : Nat} (h : around L x y d = some (x', y')) (S p : Nat) :
    brink S (y' * S) (x' * S) p d.opposite = beyond S (y * S) (x * S) p d := by
  cases d <;> simp only [around] at h <;> split at h <;> cases h <;>
    simp only [brink, beyond, Direction.opposite]
  · next hy =>
    rw [← Nat.succ_mul, Nat.succ_eq_add_one, Nat.sub_add_cancel hy]
  · rw [Nat.succ_mul]
  · rw [Nat.succ_mul]
  · next hx =>
    rw [← Nat.succ_mul, Nat.succ_eq_add_one, Nat.sub_add_cancel hx]

/-- The border of a tile lies inside the ring. -/
theorem inside_brink (hk : k < g.cells.toNat) (hp : p < S) (d : Direction) :
    Solver.inside (g.span * S) (brink S (g.row k * S) (g.column k * S) p d).1
      (brink S (g.row k * S) (g.column k * S) p d).2 = true := by
  have hrow := row_mul_le S hk
  have hcolumn := g.column_mul_le S k
  rw [inside_iff]
  cases d <;> simp only [brink] <;> omega

/-- What lies just outside a tile without a neighbor there is the ring. -/
theorem ringValue_beyond (hk : k < g.cells.toNat) (hp : p < S) (h : g.mate k d = none) :
    Solver.inside (g.span * S) (beyond S (g.row k * S) (g.column k * S) p d).1
      (beyond S (g.row k * S) (g.column k * S) p d).2 = false ∧
    Solver.ringValue (g.span * S) b (beyond S (g.row k * S) (g.column k * S) p d).1
      (beyond S (g.row k * S) (g.column k * S) p d).2 = b.get d := by
  have hrow := row_mul_le S hk
  have hcolumn := g.column_mul_le S k
  have hlast : ∀ n, n < g.span → ¬ n + 1 < g.span → n * S + S = g.span * S := by
    intro n hn hnot
    rw [← Nat.succ_mul, Nat.succ_eq_add_one, show n + 1 = g.span by omega]
  rw [mate, if_pos hk, Option.map_eq_none_iff] at h
  rw [Bool.eq_false_iff, ne_eq, inside_iff]
  cases d <;> simp only [around] at h <;> split at h <;> cases h <;>
    simp only [beyond]
  · next hnot =>
    have hzero : g.row k * S = 0 := by rw [show g.row k = 0 by omega, Nat.zero_mul]
    rw [hzero]
    exact ⟨by omega, (ringValue_sides b (by omega)).1⟩
  · next hnot =>
    rw [hlast _ (g.row_lt hk) hnot]
    exact ⟨by omega, (ringValue_sides b (by omega)).2.1⟩
  · next hnot =>
    rw [hlast _ (g.column_lt k) hnot]
    exact ⟨by omega, (ringValue_sides b (by omega)).2.2.1⟩
  · next hnot =>
    have hzero : g.column k * S = 0 := by rw [show g.column k = 0 by omega, Nat.zero_mul]
    rw [hzero]
    exact ⟨by omega, (ringValue_sides b (by omega)).2.2.2⟩

/-- **The edges that a cell has heard hold the field just outside its tile.** -/
theorem abuts_heard {rounds t : Nat} (hk : k < g.cells.toNat) {incoming : Compass Edge}
    (h : ∀ d, incoming.get d = (g.plan S b rounds).heard k d t) :
    Abuts S (g.span * S) b t (g.row k * S) (g.column k * S) incoming := by
  have hinitial : ∀ d, ((g.plan S b rounds).initial k).get d =
      .filled S (if (g.mate k d).isNone then b.get d else .zero) := by
    intro d
    simp only [plan, LocalState.initial, Compass.get_ofFn, neighborIds, Option.isNone_map]
  intro d p hp
  rw [h d]
  cases hj : g.mate k d with
  | none =>
    obtain ⟨hout, hring⟩ := ringValue_beyond (b := b) hk hp hj
    rw [Plan.heard_alone hj, hinitial, hj, Edge.value_filled _ hp, field_of_not_inside hout, hring]
    rfl
  | some j =>
    obtain ⟨-, hjlt⟩ := mate_lt hj
    obtain ⟨-, -, haround⟩ := mate_eq_some_iff.1 hj
    rw [← brink_of_around haround S p]
    cases t with
    | zero =>
      change Edge.value (((g.plan S b rounds).initial k).get d) p = _
      rw [hinitial, hj, Edge.value_filled _ hp, field_zero_of_inside (inside_brink hjlt hp _)]
      rfl
    | succ t =>
      simp only [Plan.heard, plan, hj, Compass.get_ofFn]
      exact value_borderOf hp d.opposite

/-- The cell with a number before its first step. -/
def outsetCell (g : Geometry) (S : Nat) (b : Border) (ends : Nat → Ends) (k : Nat) : Cell where
  position := ⟨UInt32.ofNat (g.column k), UInt32.ofNat (g.row k)⟩
  state := .initial S (g.neighborIds k) b
  peer := .fresh ⟨UInt32.ofNat k⟩ S (ends k)

theorem create_eq {ends : Nat → Ends} (hwired : Wired g.mate ends) (hk : k < g.cells.toNat)
    (S : Nat) (b : Border) : Cell.create g ⟨UInt32.ofNat k⟩ (ends k) S b =
      .ok (g.outsetCell S b ends k) := by
  rw [Cell.create, position_eq hk, neighbors_eq hk, hwired.create_eq mate_symm]
  rfl

end Geometry

/-- What a mesh is assembled to once its cells are joined. -/
theorem Mesh.assemble_eq {c : Config} {g : Geometry} (hg : c.geometry = .ok g)
    {s : Fabric × Array Ends} (hs : g.joins.foldlM Fabric.join (Fabric.ofCapacity c.linkCapacity,
      Array.replicate g.cells.toNat Ends.none) = .ok s) :
    assemble c = .ok ⟨g, s.1, ((List.range g.cells.toNat).map fun k => some
      (g.outsetCell c.edgeLength.toNat c.border (s.2.getD · .none) k)).toArray⟩ := by
  have hwiring := Wiring.of_joinAll g.proper_joins hs
  have hwired := hwiring.wired
  rw [g.mates_joins] at hwired
  have hends : s.2.toList = (List.range g.cells.toNat).map (s.2.getD · .none) := by
    refine List.ext_getElem (by simp [hwiring.size]) fun k hk _ => ?_
    rw [Array.length_toList] at hk
    rw [List.getElem_map, List.getElem_range, Array.getElem_toList,
      Array.getD_eq_getD_getElem?, Array.getElem?_eq_getElem hk, Option.getD_some]
  have hcells : (g.ids.zip s.2.toList).mapM (fun p =>
      Cell.create g p.1 p.2 c.edgeLength.toNat c.border) = .ok ((List.range g.cells.toNat).map
        (g.outsetCell c.edgeLength.toNat c.border (s.2.getD · .none))) := by
    rw [hends, g.ids_eq, List.zip_map', List.mapM_map]
    exact mapM_eq_ok fun k hk => Geometry.create_eq hwired (List.mem_range.1 hk) _ _
  rw [assemble, hg]
  change ((Fabric.ofCapacity c.linkCapacity).wire g >>= fun s => do
    let cells ← (g.ids.zip s.2.toList).mapM fun p =>
      Cell.create g p.1 p.2 c.edgeLength.toNat c.border
    return (⟨g, s.1, (cells.map some).toArray⟩ : Mesh)) = _
  rw [Fabric.wire_eq, hs]
  change ((g.ids.zip s.2.toList).mapM (fun p =>
    Cell.create g p.1 p.2 c.edgeLength.toNat c.border) >>= fun cells =>
      pure (⟨g, s.1, (cells.map some).toArray⟩ : Mesh)) = _
  rw [hcells]
  change Except.ok _ = _
  rw [List.map_map]
  rfl

/-- A mesh whose cells have done nothing yet. They hold the ends of links that nobody has used, each
joined with its neighbors. -/
structure Mesh.Outset (m : Mesh) (S : Nat) (b : Border) (capacity : UInt64) (ends : Nat → Ends) :
    Prop where
  size : m.cells.size = m.geometry.cells.toNat
  cells : ∀ k, m.cell? k = if k < m.geometry.cells.toNat then
    some (m.geometry.outsetCell S b ends k) else none
  wired : Wired m.geometry.mate ends
  bound : ∀ {k d n}, (ends k).outbound.get d = some n → n < m.fabric.links.size
  /-- Every link has a cell that sends on it. -/
  owned : ∀ {n}, n < m.fabric.links.size → ∃ k d, (ends k).outbound.get d = some n
  fresh : ∀ {n : Nat} {l : Link}, m.fabric.links[n]? = some l → l = .ofCapacity capacity.toNat
  stats : m.fabric.stats = {}

/-- Cells that have been joined make a mesh at its outset. -/
theorem Mesh.outset_of_wiring {g : Geometry} {S : Nat} {b : Border} {capacity : UInt64}
    {s : Fabric × Array Ends} (h : Wiring g.cells.toNat capacity g.joins s) :
    Outset ⟨g, s.1, ((List.range g.cells.toNat).map fun k => some
      (g.outsetCell S b (s.2.getD · .none) k)).toArray⟩ S b capacity (s.2.getD · .none) := by
  refine ⟨?_, fun k => ?_, g.mates_joins ▸ h.wired, h.bound, h.owned, h.fresh, h.stats⟩
  · rw [List.size_toArray, List.length_map, List.length_range]
  · rw [cell?, List.getElem?_toArray, List.getElem?_map]
    by_cases hk : k < g.cells.toNat
    · rw [List.getElem?_range hk, if_pos hk]
      rfl
    · rw [List.getElem?_eq_none (by rw [List.length_range]; exact Nat.not_lt.1 hk), if_neg hk]
      rfl

/-- **A mesh is assembled wired as its geometry says**, with cells that have done nothing yet. -/
theorem Mesh.assembled {c : Config} {m : Mesh} (h : assemble c = .ok m) :
    c.geometry = .ok m.geometry ∧
      ∃ ends, m.Outset c.edgeLength.toNat c.border c.linkCapacity ends := by
  cases hg : c.geometry with
  | error cause =>
    rw [assemble, hg] at h
    cases h
  | ok g =>
    cases hs : g.joins.foldlM Fabric.join (Fabric.ofCapacity c.linkCapacity,
        Array.replicate g.cells.toNat Ends.none) with
    | error cause =>
      rw [assemble, hg] at h
      change ((Fabric.ofCapacity c.linkCapacity).wire g >>= _) = _ at h
      rw [Fabric.wire_eq, hs] at h
      cases h
    | ok s =>
      rw [assemble_eq hg hs] at h
      obtain rfl := Except.ok.inj h
      exact ⟨rfl, _, outset_of_wiring (Wiring.of_joinAll g.proper_joins hs)⟩

/-- **A mesh is assembled** when its links can have the capacity asked for. -/
theorem Mesh.exists_assemble {c : Config} {g : Geometry} (hg : c.geometry = .ok g)
    (hcap : c.linkCapacity ≤ Fabric.greatestCapacity) : ∃ m, assemble c = .ok m := by
  obtain ⟨s, hs⟩ := Wiring.exists_joinAll (UInt64.not_lt.2 hcap) g.proper_joins
  exact ⟨_, assemble_eq hg hs⟩

end DiffusionMesh

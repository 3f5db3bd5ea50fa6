/-
# The wiring of a mesh

A mesh is wired cell by cell: each is joined with its eastern and its southern neighbor. That is a
list of joins like any other, takes up no port twice, and joins every cell with all its neighbors.

```
   k ──── k + 1
   │
 k + L
```

Main statements: `wire_eq`, the wiring of a mesh is that of its joins, and `mates_joins`, those join
each cell with its neighbors.
-/

import DiffusionMesh.Proofs.Grid.Lattice
import DiffusionMesh.Proofs.Mesh.Wiring
import Mathlib.Data.List.Nodup

namespace DiffusionMesh
namespace Geometry

variable {g : Geometry}

/-- The join of a cell with its neighbor in a direction, if it has one. -/
def joinTo (g : Geometry) (k : Nat) (d : Direction) : List Join :=
  ((g.mate k d).map fun j => (k, j, d)).toList

/-- The joins of a cell. -/
def joinsOf (g : Geometry) (k : Nat) : List Join := g.joinTo k .east ++ g.joinTo k .south

/-- The joins of a mesh. -/
def joins (g : Geometry) : List Join := (List.range g.cells.toNat).flatMap g.joinsOf

theorem mem_joinTo {k : Nat} {d : Direction} {p : Join} :
    p ∈ g.joinTo k d ↔ p.1 = k ∧ p.2.2 = d ∧ g.mate k d = some p.2.1 := by
  obtain ⟨i, j, e⟩ := p
  rw [joinTo, Option.mem_toList, Option.map_eq_some_iff]
  constructor
  · rintro ⟨j, hj, heq⟩
    cases heq
    exact ⟨rfl, rfl, hj⟩
  · rintro ⟨rfl, rfl, hj⟩
    exact ⟨j, hj, rfl⟩

theorem mem_joinsOf {k : Nat} {p : Join} : p ∈ g.joinsOf k ↔
    p.1 = k ∧ (p.2.2 = .east ∨ p.2.2 = .south) ∧ g.mate k p.2.2 = some p.2.1 := by
  rw [joinsOf, List.mem_append, mem_joinTo, mem_joinTo]
  constructor
  · rintro (⟨hk, hd, hj⟩ | ⟨hk, hd, hj⟩)
    · exact ⟨hk, .inl hd, by rw [hd, hj]⟩
    · exact ⟨hk, .inr hd, by rw [hd, hj]⟩
  · rintro ⟨hk, hd | hd, hj⟩
    · exact .inl ⟨hk, hd, by rw [← hd, hj]⟩
    · exact .inr ⟨hk, hd, by rw [← hd, hj]⟩

theorem mem_joins {i j : Nat} {d : Direction} : (i, j, d) ∈ g.joins ↔
    (d = .east ∨ d = .south) ∧ g.mate i d = some j := by
  rw [joins, List.mem_flatMap]
  constructor
  · rintro ⟨k, -, hp⟩
    obtain ⟨rfl, hd, hj⟩ := mem_joinsOf.1 hp
    exact ⟨hd, hj⟩
  · rintro ⟨hd, hj⟩
    exact ⟨i, List.mem_range.2 (mate_lt hj).1, mem_joinsOf.2 ⟨rfl, hd, hj⟩⟩

/-- A port taken up by the joins of a cell is one of its own or leads to it. -/
theorem mem_ports {k m : Nat} {e : Direction} (h : (m, e) ∈ (g.joinsOf k).flatMap portsOf) :
    (m = k ∧ (e = .east ∨ e = .south)) ∨ (g.mate m e = some k ∧ (e = .west ∨ e = .north)) := by
  obtain ⟨⟨i, j, d⟩, hp, hport⟩ := List.mem_flatMap.1 h
  obtain ⟨rfl, hd, hj⟩ := mem_joinsOf.1 hp
  simp only [portsOf, List.mem_cons, List.not_mem_nil, or_false, Prod.mk.injEq] at hport
  rcases hport with ⟨rfl, rfl⟩ | ⟨rfl, rfl⟩
  · exact .inl ⟨rfl, hd⟩
  · refine .inr ⟨mate_symm hj, ?_⟩
    rcases hd with rfl | rfl
    · exact .inl rfl
    · exact .inr rfl

/-- **The joins of a mesh take up no port twice.** -/
theorem nodup_ports (g : Geometry) : (g.joins.flatMap portsOf).Nodup := by
  rw [joins, List.flatMap_assoc, List.nodup_flatMap]
  refine ⟨fun k _ => ?_, List.nodup_range.imp fun {a b} hab => ?_⟩
  · -- the ports of one cell differ in direction
    refine List.Nodup.of_map Prod.snd ?_
    unfold joinsOf joinTo
    cases g.mate k .east <;> cases g.mate k .south <;>
      simp [portsOf, Direction.opposite]
  · rintro ⟨m, e⟩ ha hb
    rcases mem_ports ha with ⟨rfl, he⟩ | ⟨hma, he⟩ <;>
      rcases mem_ports hb with ⟨hmb, he'⟩ | ⟨hmb, he'⟩
    · exact hab hmb
    · rcases he with rfl | rfl <;> rcases he' with he' | he' <;> cases he'
    · rcases he with rfl | rfl <;> rcases he' with he' | he' <;> cases he'
    · exact hab (Option.some.inj (hma.symm.trans hmb))

theorem proper_joins (g : Geometry) : Proper g.cells.toNat g.joins where
  inRange _ hp := mate_lt (mem_joins.1 hp).2
  apart _ hp := (mate_ne (mem_joins.1 hp).2).symm
  once := g.nodup_ports

/-- **The joins of a mesh join each cell with its neighbors.** -/
theorem mates_joins (g : Geometry) : mates g.joins = g.mate := by
  funext i d
  refine Option.ext fun j => ?_
  rw [mates_eq_some_iff g.proper_joins, mem_joins, mem_joins]
  constructor
  · rintro (⟨-, hj⟩ | ⟨-, hj⟩)
    · exact hj
    · rw [← d.opposite_opposite]
      exact mate_symm hj
  · intro hj
    cases d with
    | east => exact .inl ⟨.inl rfl, hj⟩
    | south => exact .inl ⟨.inr rfl, hj⟩
    | west => exact .inr ⟨.inl rfl, mate_symm hj⟩
    | north => exact .inr ⟨.inr rfl, mate_symm hj⟩

end Geometry

/-- Joining a cell with its neighbor is a join, or nothing if there is none. -/
theorem Fabric.joinNeighbor_eq {g : Geometry} {k : Nat} (hk : k < g.cells.toNat) (d : Direction)
    (f : Fabric) (ends : Array Ends) : f.joinNeighbor g ⟨UInt32.ofNat k⟩ d ends =
      (g.joinTo k d).foldlM Fabric.join (f, ends) := by
  rw [joinNeighbor, Geometry.neighbors_eq hk, Geometry.joinTo]
  simp only [bind, Except.bind, Compass.get_ofFn]
  cases hj : g.mate k d with
  | none => rfl
  | some j =>
    have hkn := Geometry.toNat_number hk
    have hjn := Geometry.toNat_number (Geometry.mate_lt hj).2
    simp only [Option.map_some, hkn, hjn]
    exact (bind_pure _).symm

/-- **The wiring of a mesh is that of its joins.** -/
theorem Fabric.wire_eq (f : Fabric) (g : Geometry) :
    f.wire g = g.joins.foldlM Fabric.join (f, Array.replicate g.cells.toNat Ends.none) := by
  have hcell : ∀ {k}, k < g.cells.toNat → ∀ s : Fabric × Array Ends,
      (do let s ← s.1.joinNeighbor g ⟨UInt32.ofNat k⟩ .east s.2
          s.1.joinNeighbor g ⟨UInt32.ofNat k⟩ .south s.2) = (g.joinsOf k).foldlM Fabric.join s := by
    intro k hk s
    simp only [Geometry.joinsOf, List.foldlM_append, joinNeighbor_eq hk]
  have hall : ∀ (ks : List Nat) (s : Fabric × Array Ends), (∀ k ∈ ks, k < g.cells.toNat) →
      (ks.map fun k => (⟨UInt32.ofNat k⟩ : CellId)).foldlM (fun s id => do
        let s ← s.1.joinNeighbor g id .east s.2
        s.1.joinNeighbor g id .south s.2) s = (ks.flatMap g.joinsOf).foldlM Fabric.join s := by
    intro ks
    induction ks with
    | nil => exact fun s _ => rfl
    | cons k ks ih =>
      intro s hks
      rw [List.map_cons, List.foldlM_cons, List.flatMap_cons, List.foldlM_append,
        hcell (hks k List.mem_cons_self)]
      exact bind_congr fun s' => ih s' fun j hj => hks j (List.mem_cons_of_mem _ hj)
  rw [wire, Geometry.ids_eq]
  exact hall _ _ fun k hk => List.mem_range.1 hk

end DiffusionMesh

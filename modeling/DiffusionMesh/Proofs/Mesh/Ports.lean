/-
# The ports of a mesh

Wiring gives a cell one port for each neighbor. Behind a port are a link to send on and a link to
receive on, and each link leads from a port to the one facing it:

```
   cell a, direction d  ── link n ──▶  cell b, direction d.opposite
```

The loop that joins the cells adds two links per turn. Before a turn both of its ports are free, so
no turn undoes what an earlier one did, and in the end every port of a neighbor has been taken up
once.

Main statements: `Geometry.length_joins`, a mesh of side `L` takes `2 L (L - 1)` joins, and
`Fabric.wire_realises`.
-/

import DiffusionMesh.Proofs.Mesh.Layout

namespace DiffusionMesh

/-! ### The number of links -/

namespace Fabric

variable {f f' : Fabric} {s s' : Fabric × Array Ends} {a b a' b' : Ends} {d : Direction}

@[simp] theorem size_modify (f : Fabric) (link : Option Nat) (change : Link → Link) :
    (f.modify link change).links.size = f.links.size := by
  cases link with
  | none => rfl
  | some i => exact Array.size_modify

theorem size_addLink (h : f.addLink = .ok f') : f'.links.size = f.links.size + 1 := by
  unfold addLink at h
  split at h
  · cases h
  · cases h
    exact Array.size_push _

/-- A join adds a link for each way. -/
theorem size_connect (h : f.connect a b d = .ok (f', a', b')) :
    f'.links.size = f.links.size + 2 := by
  unfold connect at h
  cases h₁ : f.addLink with
  | error cause => simp [h₁, bind, Except.bind] at h
  | ok f₁ =>
    cases h₂ : f₁.addLink with
    | error cause => simp [h₁, h₂, bind, Except.bind] at h
    | ok f₂ =>
      have hfirst := size_addLink h₁
      have hsecond := size_addLink h₂
      simp only [h₁, h₂, bind, Except.bind, pure, Except.pure, attach, Except.ok.injEq,
        Prod.mk.injEq] at h
      rw [← h.1]
      simp only [closeSender, closeReceiver, size_modify]
      omega

theorem size_join {p : Join} (h : join s p = .ok s') :
    s'.1.links.size = s.1.links.size + 2 := by
  unfold join at h
  cases hconnect : s.1.connect (s.2.getD p.1 .none) (s.2.getD p.2.1 .none) p.2.2 with
  | error cause =>
    rw [hconnect] at h
    cases h
  | ok t =>
    obtain ⟨f, a, b⟩ := t
    rw [hconnect] at h
    obtain rfl := Except.ok.inj h
    exact size_connect hconnect

theorem size_joinAll {joins : List Join} (h : joins.foldlM join s = .ok s') :
    s'.1.links.size = s.1.links.size + 2 * joins.length := by
  induction joins generalizing s with
  | nil =>
    obtain rfl := Except.ok.inj h
    rfl
  | cons p joins ih =>
    rw [List.foldlM_cons] at h
    cases hp : join s p with
    | error cause =>
      rw [hp] at h
      cases h
    | ok t =>
      rw [hp] at h
      have hone := size_join hp
      have hrest := ih h
      rw [List.length_cons]
      omega

end Fabric

/-! ### The ports that the joins take up -/

namespace Geometry

variable {g : Geometry} {i j : Nat} {d : Direction}

/-- The cells and directions with a neighbor. -/
def neighborPorts (g : Geometry) : List (Nat × Direction) :=
  (List.range g.cells.toNat).flatMap fun k =>
    (Direction.all.filter fun d => (g.mate k d).isSome).map fun d => (k, d)

theorem mem_neighborPorts : (i, d) ∈ g.neighborPorts ↔ (g.mate i d).isSome = true := by
  simp only [neighborPorts, List.mem_flatMap, List.mem_range, List.mem_map, List.mem_filter]
  constructor
  · rintro ⟨k, -, e, ⟨-, he⟩, heq⟩
    cases heq
    exact he
  · intro h
    obtain ⟨j, hj⟩ := Option.isSome_iff_exists.1 h
    exact ⟨i, (mate_lt hj).1, d, ⟨d.mem_all, h⟩, rfl⟩

theorem nodup_neighborPorts (g : Geometry) : g.neighborPorts.Nodup := by
  rw [neighborPorts, List.nodup_flatMap]
  refine ⟨fun k _ => ?_, List.nodup_range.imp fun {a b} hab => ?_⟩
  · have hall : Direction.all.Nodup := by decide
    exact (hall.filter _).map fun _ _ h => (Prod.mk.inj h).2
  · intro port ha hb
    obtain ⟨d, -, rfl⟩ := List.mem_map.1 ha
    obtain ⟨e, -, heq⟩ := List.mem_map.1 hb
    exact hab (Prod.mk.inj heq).1.symm

theorem length_neighborPorts (g : Geometry) :
    g.neighborPorts.length = 4 * g.span * (g.span - 1) := by
  have hcell : (List.range g.cells.toNat).map (fun k =>
      ((Direction.all.filter fun d => (g.mate k d).isSome).map fun d => (k, d)).length) =
      (List.range g.cells.toNat).map g.degree := List.map_congr_left fun k _ => by
    rw [List.length_map, degree, List.countP_eq_length_filter]
  rw [neighborPorts, List.length_flatMap, hcell, sum_degree]

/-- A port is taken up by a join when its cell has a neighbor there. -/
theorem mem_ports_iff : (i, d) ∈ g.joins.flatMap portsOf ↔ (g.mate i d).isSome = true := by
  rw [List.mem_flatMap]
  constructor
  · rintro ⟨⟨k, j, e⟩, hp, hport⟩
    have hj := (mem_joins.1 hp).2
    simp only [portsOf, List.mem_cons, List.not_mem_nil, or_false, Prod.mk.injEq] at hport
    rcases hport with ⟨rfl, rfl⟩ | ⟨rfl, rfl⟩
    · rw [hj, Option.isSome_some]
    · rw [mate_symm hj, Option.isSome_some]
  · intro h
    obtain ⟨j, hj⟩ := Option.isSome_iff_exists.1 h
    rw [← mates_joins, mates_eq_some_iff g.proper_joins] at hj
    rcases hj with hp | hp
    · exact ⟨_, hp, List.mem_cons_self⟩
    · refine ⟨_, hp, ?_⟩
      rw [portsOf, Direction.opposite_opposite]
      exact List.mem_cons_of_mem _ (List.mem_singleton_self _)

/-- **The joins of a mesh take up each port of a neighbor once.** -/
theorem ports_perm (g : Geometry) : (g.joins.flatMap portsOf).Perm g.neighborPorts :=
  (List.perm_ext_iff_of_nodup g.nodup_ports g.nodup_neighborPorts).2 fun (_, _) => by
    rw [mem_ports_iff, mem_neighborPorts]

/-- **A mesh of side `L` takes `2 L (L - 1)` joins**, half as many as it has ports. -/
theorem length_joins (g : Geometry) : 2 * g.joins.length = 4 * g.span * (g.span - 1) := by
  have hlength : (g.joins.flatMap portsOf).length = 2 * g.joins.length := by
    simp [List.length_flatMap, portsOf, Nat.mul_comm]
  rw [← hlength, g.ports_perm.length_eq, length_neighborPorts]

/-- A cell is joined from its western or northern side, where the lower number is. -/
theorem lt_of_mem_joins (h : (i, j, d) ∈ g.joins) : i < j := by
  obtain ⟨hd, hj⟩ := mem_joins.1 h
  obtain ⟨-, -, haround⟩ := mate_eq_some_iff.1 hj
  have hpos := g.span_pos
  rw [← g.cellNumber_column_row i, ← g.cellNumber_column_row j, cellNumber, cellNumber]
  rcases hd with rfl | rfl
  · simp only [around] at haround
    split at haround
    · obtain ⟨hx, hy⟩ := Prod.mk.inj (Option.some.inj haround)
      rw [← hx, ← hy]
      omega
    · cases haround
  · simp only [around] at haround
    split at haround
    · obtain ⟨hx, hy⟩ := Prod.mk.inj (Option.some.inj haround)
      rw [← hx, ← hy, Nat.succ_mul]
      omega
    · cases haround

end Geometry

/-! ### Turns of the loop -/

/-- What a turn of the loop needs: its two cells in this order, both of them there, and their ports
free. -/
structure Fabric.Joinable (s : Fabric × Array Ends) (i j : Nat) (d : Direction) : Prop where
  order : i < j
  inRange : j < s.2.size
  first : (s.2.getD i .none).outbound.get d = none ∧ (s.2.getD i .none).inbound.get d = none
  second : (s.2.getD j .none).outbound.get d.opposite = none ∧
    (s.2.getD j .none).inbound.get d.opposite = none

theorem Proper.of_append {n : Nat} {first rest : List Join} (h : Proper n (first ++ rest)) :
    Proper n first where
  inRange p hp := h.inRange p (List.mem_append_left _ hp)
  apart p hp := h.apart p (List.mem_append_left _ hp)
  once := by
    have honce := h.once
    rw [List.flatMap_append, List.nodup_append] at honce
    exact honce.1

/-- **Each turn finds the ports it takes up free.** -/
theorem Geometry.joinable {g : Geometry} {capacity : UInt64}
    (hcap : capacity ≤ Fabric.greatestCapacity) {first rest : List Join} {i j : Nat}
    {d : Direction} (h : g.joins = first ++ (i, j, d) :: rest) :
    ∃ s, first.foldlM Fabric.join
      (Fabric.ofCapacity capacity, Array.replicate g.cells.toNat Ends.none) = .ok s ∧
      Fabric.Joinable s i j d := by
  have hproper := g.proper_joins
  rw [h, List.append_cons] at hproper
  have hturn := hproper.of_append
  obtain ⟨s, hs⟩ := Wiring.exists_joinAll (UInt64.not_lt.2 hcap) hturn.of_append
  have hwiring := Wiring.of_joinAll hturn.of_append hs
  obtain ⟨hfirst, hsecond⟩ := mates_free hturn
  have hmem : (i, j, d) ∈ g.joins := h ▸ List.mem_append_right _ List.mem_cons_self
  refine ⟨s, hs, lt_of_mem_joins hmem, ?_, hwiring.wired.alone hfirst, hwiring.wired.alone hsecond⟩
  rw [hwiring.size]
  exact (g.proper_joins.inRange _ hmem).2

/-! ### The wiring as a whole -/

/-- The ports `s.2` and links `s.1` of a mesh are those of its neighbor tables. -/
structure Fabric.Realises (s : Fabric × Array Ends) (g : Geometry) (capacity : UInt64) : Prop where
  size : s.2.size = g.cells.toNat
  /-- The `k`-th ports belong to cell `k`. -/
  cell : ∀ k, k < g.cells.toNat →
    (g.ids.zip s.2.toList)[k]? = some (⟨UInt32.ofNat k⟩, s.2.getD k .none)
  links : s.1.links.size = 4 * g.side.toNat * (g.side.toNat - 1)
  /-- Neither end of a link has been given up. -/
  fresh : ∀ n, n < s.1.links.size → s.1.links[n]? = some (.ofCapacity capacity.toNat)
  /-- A cell has ports where it has neighbors, and sends to each on the link that the neighbor
  receives on from the opposite direction. -/
  neighbor : ∀ a, a < g.cells.toNat → ∃ table, g.neighbors ⟨UInt32.ofNat a⟩ = .ok table ∧ ∀ d,
    (((s.2.getD a .none).outbound.get d).isSome = true ↔ ∃ b, table.get d = some b) ∧
    (((s.2.getD a .none).inbound.get d).isSome = true ↔ ∃ b, table.get d = some b) ∧
    ∀ b, table.get d = some b → b.index.toNat < g.cells.toNat ∧ ∃ n, n < s.1.links.size ∧
      (s.2.getD a .none).outbound.get d = some n ∧
      (s.2.getD b.index.toNat .none).inbound.get d.opposite = some n
  /-- Every link leads from a cell to a neighbor. -/
  attached : ∀ n, n < s.1.links.size → ∃ a table d b, a < g.cells.toNat ∧
    g.neighbors ⟨UInt32.ofNat a⟩ = .ok table ∧ table.get d = some b ∧
    (s.2.getD a .none).outbound.get d = some n ∧
    (s.2.getD b.index.toNat .none).inbound.get d.opposite = some n
  /-- No link is sent on from two ports. -/
  sender : ∀ a d a' d' n, (s.2.getD a .none).outbound.get d = some n →
    (s.2.getD a' .none).outbound.get d' = some n → a = a' ∧ d = d'
  /-- No link is received on at two ports. -/
  receiver : ∀ a d a' d' n, (s.2.getD a .none).inbound.get d = some n →
    (s.2.getD a' .none).inbound.get d' = some n → a = a' ∧ d = d'

namespace Wired

variable {mate : Nat → Direction → Option Nat} {ends : Nat → Ends} {i k n : Nat} {d e : Direction}

theorem outbound_isSome_iff (h : Wired mate ends) :
    ((ends i).outbound.get d).isSome = true ↔ ∃ j, mate i d = some j := by
  cases hj : mate i d with
  | none => simp [(h.alone hj).1]
  | some j =>
    obtain ⟨n, hn⟩ := h.outbound hj
    simp [hn]

theorem inbound_isSome_iff (h : Wired mate ends)
    (hsymm : ∀ {k e b}, mate k e = some b → mate b e.opposite = some k) :
    ((ends i).inbound.get d).isSome = true ↔ ∃ j, mate i d = some j := by
  cases hj : mate i d with
  | none => simp [(h.alone hj).2]
  | some j =>
    obtain ⟨n, hn⟩ := h.outbound (hsymm hj)
    simp [h.inbound hj, hn]

/-- Links are received on by one cell each, since they are sent on by one. -/
theorem inbound_injective (h : Wired mate ends)
    (hsymm : ∀ {k e b}, mate k e = some b → mate b e.opposite = some k)
    (hi : (ends i).inbound.get d = some n) (hk : (ends k).inbound.get e = some n) :
    i = k ∧ d = e := by
  obtain ⟨j, hj⟩ := (h.inbound_isSome_iff hsymm).1 (Option.isSome_iff_exists.2 ⟨n, hi⟩)
  obtain ⟨l, hl⟩ := (h.inbound_isSome_iff hsymm).1 (Option.isSome_iff_exists.2 ⟨n, hk⟩)
  rw [h.inbound hj] at hi
  rw [h.inbound hl] at hk
  obtain ⟨rfl, hopposite⟩ := h.injective hi hk
  have hde : d = e := by
    rw [← d.opposite_opposite, hopposite, Direction.opposite_opposite]
  subst hde
  exact ⟨Option.some.inj ((hsymm hj).symm.trans (hsymm hl)), rfl⟩

end Wired

namespace Geometry

variable {g : Geometry} {k : Nat}

/-- The neighbor table of a cell holds its mates, by their numbers. -/
theorem exists_table (h : k < g.cells.toNat) : ∃ table,
    g.neighbors ⟨UInt32.ofNat k⟩ = .ok table ∧
    ∀ (d : Direction) (b : CellId), table.get d = some b ↔ g.mate k d = some b.index.toNat := by
  refine ⟨_, neighbors_eq h, fun d b => ?_⟩
  rw [Compass.get_ofFn, Option.map_eq_some_iff]
  constructor
  · rintro ⟨j, hj, rfl⟩
    rw [hj, toNat_number (mate_lt hj).2]
  · intro hb
    exact ⟨_, hb, by rw [UInt32.ofNat_toNat]⟩

/-- A cell has a mate where its table has an entry. -/
theorem exists_mate_iff {d : Direction} {entry : Option CellId}
    (h : ∀ b, entry = some b ↔ g.mate k d = some b.index.toNat) :
    (∃ j, g.mate k d = some j) ↔ ∃ b, entry = some b := by
  constructor
  · rintro ⟨j, hj⟩
    refine ⟨⟨UInt32.ofNat j⟩, (h _).2 ?_⟩
    rw [toNat_number (mate_lt hj).2, hj]
  · rintro ⟨b, hb⟩
    exact ⟨_, (h b).1 hb⟩

end Geometry

/-- Cells that have been joined with their neighbors have the ports of their neighbor tables. -/
theorem Wiring.realises {g : Geometry} {capacity : UInt64} {s : Fabric × Array Ends}
    (h : Wiring g.cells.toNat capacity g.joins s)
    (hsize : s.1.links.size = 4 * g.span * (g.span - 1)) : Fabric.Realises s g capacity := by
  have hwired := h.wired
  rw [g.mates_joins] at hwired
  have hsymm : ∀ {k e b}, g.mate k e = some b → g.mate b e.opposite = some k := Geometry.mate_symm
  refine ⟨h.size, fun k hk => ?_, ?_, fun n hn => ?_, fun a ha => ?_, fun n hn => ?_,
    fun a d a' d' n => hwired.injective, fun a d a' d' n => hwired.inbound_injective hsymm⟩
  · have hlt : k < s.2.size := h.size.symm ▸ hk
    refine List.getElem?_zip_eq_some.2 ⟨?_, ?_⟩
    · rw [g.ids_eq, List.getElem?_map, List.getElem?_range hk]
      rfl
    · simp [hlt]
  · rw [hsize, g.side_toNat]
  · rw [Array.getElem?_eq_getElem hn, h.fresh (Array.getElem?_eq_getElem hn)]
  · obtain ⟨table, heq, htable⟩ := Geometry.exists_table ha
    refine ⟨table, heq, fun d => ?_⟩
    have hmate := Geometry.exists_mate_iff (htable d)
    refine ⟨hwired.outbound_isSome_iff.trans hmate,
      (hwired.inbound_isSome_iff hsymm).trans hmate, fun b hb => ?_⟩
    have hj := (htable d b).1 hb
    obtain ⟨n, hn⟩ := hwired.outbound hj
    refine ⟨(Geometry.mate_lt hj).2, n, h.bound hn, hn, ?_⟩
    rw [hwired.inbound (hsymm hj), Direction.opposite_opposite, hn]
  · obtain ⟨a, d, hout⟩ := h.owned hn
    obtain ⟨j, hj⟩ := hwired.outbound_isSome_iff.1 (Option.isSome_iff_exists.2 ⟨n, hout⟩)
    obtain ⟨ha, hlt⟩ := Geometry.mate_lt hj
    obtain ⟨table, heq, htable⟩ := Geometry.exists_table ha
    have hnumber := Geometry.toNat_number hlt
    refine ⟨a, table, d, ⟨UInt32.ofNat j⟩, ha, heq, (htable d _).2 ?_, hout, ?_⟩
    · rw [hnumber, hj]
    · rw [hnumber, hwired.inbound (hsymm hj), Direction.opposite_opposite, hout]

/-- **Wiring realises the neighbor relation** of every mesh, and no turn of its loop misses a cell
or takes up a port that is in use. -/
theorem Fabric.wire_realises (g : Geometry) {capacity : UInt64}
    (hcap : capacity ≤ greatestCapacity) :
    (∃ s, (ofCapacity capacity).wire g = .ok s ∧ Realises s g capacity) ∧
    (ofCapacity capacity).wire g =
      g.joins.foldlM join (ofCapacity capacity, Array.replicate g.cells.toNat Ends.none) ∧
    ∀ first i j d rest, g.joins = first ++ (i, j, d) :: rest → ∃ s, first.foldlM join
      (ofCapacity capacity, Array.replicate g.cells.toNat Ends.none) = .ok s ∧
      Joinable s i j d := by
  obtain ⟨s, hs⟩ := Wiring.exists_joinAll (UInt64.not_lt.2 hcap) g.proper_joins
  have hsize : s.1.links.size = 4 * g.span * (g.span - 1) := by
    rw [size_joinAll hs, g.length_joins]
    exact Nat.zero_add _
  refine ⟨⟨s, ?_, (Wiring.of_joinAll g.proper_joins hs).realises hsize⟩, wire_eq _ g,
    fun first i j d rest h => g.joinable hcap h⟩
  rw [wire_eq, hs]

/-- The four cells of a square have eight links, one of which leads from cell 0 east to cell 1. -/
theorem Fabric.wire_realises_square :
    let g : Geometry := ⟨4, 1, rfl⟩
    ∃ s, (ofCapacity 4).wire g = .ok s ∧ s.1.links.size = 8 ∧
      ∃ n, (s.2.getD 0 .none).outbound.get .east = some n ∧
        (s.2.getD 1 .none).inbound.get .west = some n := by
  intro g
  have hcap : (4 : UInt64) ≤ greatestCapacity := by decide
  obtain ⟨⟨s, hs, hreal⟩, -, -⟩ := wire_realises g hcap
  obtain ⟨table, htable, hports⟩ := hreal.neighbor 0 (by decide)
  have heast : table.get .east = some ⟨1⟩ := by
    have heq : g.neighbors ⟨UInt32.ofNat 0⟩ = .ok ⟨none, some ⟨2⟩, some ⟨1⟩, none⟩ := by decide
    rw [heq] at htable
    rw [← Except.ok.inj htable]
    rfl
  obtain ⟨-, n, -, hout, hin⟩ := (hports .east).2.2 _ heast
  exact ⟨s, hs, hreal.links, n, hout, hin⟩

end DiffusionMesh

/-
# Wiring a network

Cells are joined one pair after the other. A list of joins in which no port occurs twice
determines who is joined with whom (`mates`), and joining them gives each direction with a mate a
link of its own (`Wiring`).

| join `(i, j, d)` | sends on | receives on |
| --- | --- | --- |
| cell `i`, direction `d` | link `n` | link `n + 1` |
| cell `j`, direction `d.opposite` | link `n + 1` | link `n` |

Main statements: `wiring_of_joinAll`, and `Concord.initial`, a network that is wired as a plan has
it begins in concord.
-/

import DiffusionMesh.Mesh.Network
import DiffusionMesh.Proofs.Mesh.Concord
import Mathlib.Data.List.Induction

namespace DiffusionMesh

/-- Two cells to be joined: `(i, j, d)`, where `j` lies in direction `d` from `i`. -/
abbrev Join := Nat × Nat × Direction

/-- The two ports that a join takes up. -/
def portsOf (p : Join) : List (Nat × Direction) := [(p.1, p.2.2), (p.2.1, p.2.2.opposite)]

/-- Joins of different cells among the first `n` that take up no port twice. -/
structure Proper (n : Nat) (joins : List Join) : Prop where
  inRange : ∀ p ∈ joins, p.1 < n ∧ p.2.1 < n
  apart : ∀ p ∈ joins, p.1 ≠ p.2.1
  once : (joins.flatMap portsOf).Nodup

instance (n : Nat) (joins : List Join) : Decidable (Proper n joins) :=
  decidable_of_iff ((∀ p ∈ joins, p.1 < n ∧ p.2.1 < n) ∧ (∀ p ∈ joins, p.1 ≠ p.2.1) ∧
      (joins.flatMap portsOf).Nodup)
    ⟨fun ⟨hin, hapart, honce⟩ => ⟨hin, hapart, honce⟩, fun h => ⟨h.inRange, h.apart, h.once⟩⟩

/-- Who is joined with whom once two more cells are. -/
def joined (mate : Nat → Direction → Option Nat) (p : Join) (k : Nat) (e : Direction) :
    Option Nat :=
  if k = p.1 ∧ e = p.2.2 then some p.2.1
  else if k = p.2.1 ∧ e = p.2.2.opposite then some p.1
  else mate k e

/-- The cell that a cell is joined with in a direction. -/
def mates (joins : List Join) : Nat → Direction → Option Nat := joins.foldl joined fun _ _ => none

/-! ### Who is joined with whom -/

theorem mates_concat (joins : List Join) (p : Join) :
    mates (joins ++ [p]) = joined (mates joins) p := by
  rw [mates, List.foldl_append]
  rfl

theorem Proper.concat {n : Nat} {joins : List Join} {p : Join} (h : Proper n (joins ++ [p])) :
    Proper n joins ∧ p.1 < n ∧ p.2.1 < n ∧ p.1 ≠ p.2.1 ∧
      ∀ q ∈ joins.flatMap portsOf, q ∉ portsOf p := by
  have honce := h.once
  rw [List.flatMap_append, List.nodup_append] at honce
  have hp := h.inRange p (List.mem_append_right _ (List.mem_singleton_self p))
  refine ⟨⟨fun q hq => h.inRange q (List.mem_append_left _ hq),
    fun q hq => h.apart q (List.mem_append_left _ hq), honce.1⟩, hp.1, hp.2,
    h.apart p (List.mem_append_right _ (List.mem_singleton_self p)), fun q hq hmem => ?_⟩
  rw [List.flatMap_singleton] at honce
  exact honce.2.2 q hq q hmem rfl

/-- **A cell is joined with those that a join names beside it.** -/
theorem mates_eq_some_iff {n : Nat} {joins : List Join} (h : Proper n joins) {i j : Nat}
    {d : Direction} :
    mates joins i d = some j ↔ (i, j, d) ∈ joins ∨ (j, i, d.opposite) ∈ joins := by
  induction joins using List.reverseRecOn with
  | nil => exact ⟨nofun, fun h => by rcases h with h | h <;> cases h⟩
  | append_singleton joins p ih =>
    obtain ⟨hproper, -, -, -, hfree⟩ := h.concat
    have hports : ∀ {a b e}, (a, b, e) ∈ joins → (a, e) ∉ portsOf p ∧ (b, e.opposite) ∉ portsOf p :=
      fun hmem => ⟨hfree _ (List.mem_flatMap.2 ⟨_, hmem, List.mem_cons_self⟩),
        hfree _ (List.mem_flatMap.2 ⟨_, hmem, List.mem_cons_of_mem _ (List.mem_singleton_self _)⟩)⟩
    obtain ⟨a, b, e⟩ := p
    rw [mates_concat, joined]
    simp only [List.mem_append, List.mem_singleton, Prod.mk.injEq]
    by_cases hfirst : i = a ∧ d = e
    · -- the first port of the new join
      obtain ⟨rfl, rfl⟩ := hfirst
      rw [if_pos ⟨rfl, rfl⟩, Option.some_inj]
      constructor
      · rintro rfl
        exact .inl (.inr ⟨rfl, rfl, rfl⟩)
      · rintro ((hmem | ⟨-, rfl, -⟩) | (hmem | ⟨-, -, hd⟩))
        · exact absurd List.mem_cons_self (hports hmem).1
        · rfl
        · have hin := (hports hmem).2
          rw [Direction.opposite_opposite] at hin
          exact absurd List.mem_cons_self hin
        · exact absurd hd d.opposite_ne
    · rw [if_neg hfirst]
      by_cases hsecond : i = b ∧ d = e.opposite
      · -- the second port of the new join
        obtain ⟨rfl, rfl⟩ := hsecond
        have hmem' : (i, e.opposite) ∈ portsOf (a, i, e) :=
          List.mem_cons_of_mem _ (List.mem_singleton_self _)
        rw [if_pos ⟨rfl, rfl⟩, Option.some_inj, Direction.opposite_opposite]
        constructor
        · rintro rfl
          exact .inr (.inr ⟨rfl, rfl, rfl⟩)
        · rintro ((hmem | ⟨-, -, hd⟩) | (hmem | ⟨rfl, -, -⟩))
          · exact absurd hmem' (hports hmem).1
          · exact absurd hd e.opposite_ne
          · exact absurd hmem' (hports hmem).2
          · rfl
      · rw [if_neg hsecond, ih hproper]
        refine ⟨Or.imp .inl .inl, fun hor => ?_⟩
        rcases hor with (hmem | ⟨rfl, rfl, rfl⟩) | (hmem | ⟨rfl, rfl, hd⟩)
        · exact .inl hmem
        · exact absurd ⟨rfl, rfl⟩ hfirst
        · exact .inr hmem
        · exact absurd ⟨rfl, by rw [← hd, Direction.opposite_opposite]⟩ hsecond

theorem mates_symm {n : Nat} {joins : List Join} (h : Proper n joins) {i j : Nat} {d : Direction}
    (hj : mates joins i d = some j) : mates joins j d.opposite = some i := by
  rw [mates_eq_some_iff h] at hj ⊢
  rw [Direction.opposite_opposite]
  exact hj.symm

theorem mates_ne {n : Nat} {joins : List Join} (h : Proper n joins) {i j : Nat} {d : Direction}
    (hj : mates joins i d = some j) : j ≠ i := by
  rcases (mates_eq_some_iff h).1 hj with hmem | hmem
  · exact (h.apart _ hmem).symm
  · exact h.apart _ hmem

theorem mates_lt {n : Nat} {joins : List Join} (h : Proper n joins) {i j : Nat} {d : Direction}
    (hj : mates joins i d = some j) : i < n ∧ j < n := by
  rcases (mates_eq_some_iff h).1 hj with hmem | hmem
  · exact h.inRange _ hmem
  · exact (h.inRange _ hmem).symm

/-- Before the last join both of its ports are free. -/
theorem mates_free {n : Nat} {joins : List Join} {p : Join} (h : Proper n (joins ++ [p])) :
    mates joins p.1 p.2.2 = none ∧ mates joins p.2.1 p.2.2.opposite = none := by
  obtain ⟨hproper, -, -, -, hfree⟩ := h.concat
  have hnone : ∀ q ∈ portsOf p, mates joins q.1 q.2 = none := by
    intro q hq
    cases hj : mates joins q.1 q.2 with
    | none => rfl
    | some j =>
      rcases (mates_eq_some_iff hproper).1 hj with hmem | hmem
      · exact absurd hq (hfree _ (List.mem_flatMap.2 ⟨_, hmem, List.mem_cons_self⟩))
      · refine absurd hq (hfree _ (List.mem_flatMap.2 ⟨_, hmem, ?_⟩))
        rw [portsOf, Direction.opposite_opposite]
        exact List.mem_cons_of_mem _ (List.mem_singleton_self _)
  exact ⟨hnone _ List.mem_cons_self, hnone _ (List.mem_cons_of_mem _ (List.mem_singleton_self _))⟩

/-! ### One more link on each side -/

/-- A fabric with two more links. -/
def Fabric.extend (f : Fabric) : Fabric :=
  let link := Link.ofCapacity f.capacity.toNat
  { f with links := (f.links.push link).push link }

/-- Joins two cells of an array of ends. -/
def Fabric.join (s : Fabric × Array Ends) (p : Join) : Except Failure (Fabric × Array Ends) := do
  let (f, a, b) ← s.1.connect (s.2.getD p.1 .none) (s.2.getD p.2.1 .none) p.2.2
  return (f, (s.2.setIfInBounds p.1 a).setIfInBounds p.2.1 b)

/-- The ends with one direction taken up. -/
def Ends.hold (a : Ends) (d : Direction) (outbound inbound : Nat) : Ends :=
  ⟨a.outbound.set d (some outbound), a.inbound.set d (some inbound)⟩

/-- Joining cells whose ports are free adds two links and closes none. -/
theorem Fabric.connect_eq {f : Fabric} {a b : Ends} {d : Direction}
    (hcap : ¬ greatestCapacity < f.capacity)
    (ha : a.outbound.get d = none ∧ a.inbound.get d = none)
    (hb : b.outbound.get d.opposite = none ∧ b.inbound.get d.opposite = none) :
    f.connect a b d = .ok (f.extend, a.hold d f.links.size (f.links.size + 1),
      b.hold d.opposite (f.links.size + 1) f.links.size) := by
  have hsize : f.extend.links.size = f.links.size + 2 := by
    simp only [extend, Array.size_push]
  have hthere : f.extend.links.size - 2 = f.links.size := by omega
  have hback : f.extend.links.size - 1 = f.links.size + 1 := by omega
  have hfirst : f.addLink =
      .ok { f with links := f.links.push (.ofCapacity f.capacity.toNat) } := by
    rw [addLink, if_neg hcap]
  have hsecond : addLink { f with links := f.links.push (.ofCapacity f.capacity.toNat) } =
      .ok f.extend := by
    rw [addLink, if_neg hcap]
    rfl
  simp only [connect, hfirst, hsecond, bind, Except.bind, pure, Except.pure, attach, closeSender,
    closeReceiver, ha.1, ha.2, hb.1, hb.2, modify, hthere, hback, Ends.hold]

/-- What a link too long for the fabric comes to. -/
theorem Fabric.connect_eq_error {f : Fabric} {a b : Ends} {d : Direction}
    (hcap : greatestCapacity < f.capacity) :
    f.connect a b d = .error (.linkTooLong f.capacity) := by
  have hfirst : f.addLink = .error (.linkTooLong f.capacity) := by
    rw [addLink, if_pos hcap]
  simp only [connect, hfirst, bind, Except.bind]

section

variable {mate : Nat → Direction → Option Nat} {ends ends' : Nat → Ends} {i j n : Nat}
  {d : Direction}

/-- What cells hold in a direction after two of them have taken up one direction each. -/
theorem get_joined (c c' : Nat → Compass (Option Nat)) {a b : Nat} (hij : i ≠ j)
    (hc : ∀ k, c' k = if k = j then (c j).set d.opposite (some b)
      else if k = i then (c i).set d (some a) else c k) (k : Nat) (e : Direction) :
    (c' k).get e = if k = i ∧ e = d then some a
      else if k = j ∧ e = d.opposite then some b else (c k).get e := by
  rw [hc]
  by_cases hkj : k = j
  · subst hkj
    rw [if_pos rfl, Compass.get_set, if_neg fun h : k = i ∧ e = d => hij h.1.symm]
    simp only [true_and]
  · rw [if_neg hkj, if_neg fun h : k = j ∧ e = d.opposite => hkj h.1]
    by_cases hki : k = i
    · subst hki
      rw [if_pos rfl, Compass.get_set]
      simp only [true_and]
    · rw [if_neg hki, if_neg fun h : k = i ∧ e = d => hki h.1]

theorem outbound_joined (hij : i ≠ j) (hends : ∀ k, ends' k =
      if k = j then (ends j).hold d.opposite (n + 1) n
      else if k = i then (ends i).hold d n (n + 1) else ends k) (k : Nat) (e : Direction) :
    (ends' k).outbound.get e = if k = i ∧ e = d then some n
      else if k = j ∧ e = d.opposite then some (n + 1) else (ends k).outbound.get e := by
  refine get_joined (fun k => (ends k).outbound) (fun k => (ends' k).outbound) hij (fun k => ?_) k e
  rw [hends]
  split <;> try split
  all_goals rfl

theorem inbound_joined (hij : i ≠ j) (hends : ∀ k, ends' k =
      if k = j then (ends j).hold d.opposite (n + 1) n
      else if k = i then (ends i).hold d n (n + 1) else ends k) (k : Nat) (e : Direction) :
    (ends' k).inbound.get e = if k = i ∧ e = d then some (n + 1)
      else if k = j ∧ e = d.opposite then some n else (ends k).inbound.get e := by
  refine get_joined (fun k => (ends k).inbound) (fun k => (ends' k).inbound) hij (fun k => ?_) k e
  rw [hends]
  split <;> try split
  all_goals rfl

/-- The new numbers differ from each other and from all old ones. -/
theorem owner_joined (hij : i ≠ j) (hbound : ∀ {k e m}, (ends k).outbound.get e = some m → m < n)
    (hends : ∀ k, ends' k = if k = j then (ends j).hold d.opposite (n + 1) n
      else if k = i then (ends i).hold d n (n + 1) else ends k) {k : Nat} {e : Direction} {m : Nat}
    (hm : (ends' k).outbound.get e = some m) : (m = n ∧ k = i ∧ e = d) ∨
      (m = n + 1 ∧ k = j ∧ e = d.opposite) ∨ m < n ∧ (ends k).outbound.get e = some m := by
  rw [outbound_joined hij hends] at hm
  split at hm
  · next hfirst => exact .inl ⟨(Option.some.inj hm).symm, hfirst⟩
  · split at hm
    · next hsecond => exact .inr (.inl ⟨(Option.some.inj hm).symm, hsecond⟩)
    · exact .inr (.inr ⟨hbound hm, hm⟩)

/-- **Two cells that are joined take up one direction each**, with two links that nobody uses. -/
theorem Wired.join (h : Wired mate ends)
    (hsymm : ∀ {k e b}, mate k e = some b → mate b e.opposite = some k) (hij : i ≠ j)
    (hi : mate i d = none) (hj : mate j d.opposite = none)
    (hbound : ∀ {k e m}, (ends k).outbound.get e = some m → m < n) (hends : ∀ k, ends' k =
      if k = j then (ends j).hold d.opposite (n + 1) n
      else if k = i then (ends i).hold d n (n + 1) else ends k) :
    Wired (joined mate (i, j, d)) ends' := by
  have hout := outbound_joined hij hends
  have hin := inbound_joined hij hends
  refine ⟨fun {k e b} hb => ?_, fun {k e b} hb => ?_, fun {k e} hnone => ?_,
    fun {k e k' e' m} hm hm' => ?_⟩
  · rw [joined] at hb
    rw [hout]
    split at hb
    · next hfirst => exact ⟨n, if_pos hfirst⟩
    · next hfirst =>
      rw [if_neg hfirst]
      split at hb
      · next hsecond => exact ⟨n + 1, if_pos hsecond⟩
      · next hsecond =>
        rw [if_neg hsecond]
        exact h.outbound hb
  · rw [joined] at hb
    rw [hin, hout]
    split at hb
    · next hfirst =>
      obtain ⟨rfl, rfl⟩ := hfirst
      obtain rfl := Option.some.inj hb
      rw [if_pos ⟨rfl, rfl⟩, if_neg fun hk => hij hk.1.symm, if_pos ⟨rfl, rfl⟩]
    · next hfirst =>
      rw [if_neg hfirst]
      split at hb
      · next hsecond =>
        obtain ⟨rfl, rfl⟩ := hsecond
        obtain rfl := Option.some.inj hb
        rw [if_pos ⟨rfl, rfl⟩, Direction.opposite_opposite, if_pos ⟨rfl, rfl⟩]
      · next hsecond =>
        have hback := hsymm hb
        rw [if_neg hsecond, if_neg, if_neg]
        · exact h.inbound hb
        · rintro ⟨rfl, he⟩
          rw [he, hj] at hback
          cases hback
        · rintro ⟨rfl, he⟩
          rw [he, hi] at hback
          cases hback
  · rw [joined] at hnone
    rw [hout, hin]
    split at hnone
    · cases hnone
    · next hfirst =>
      rw [if_neg hfirst, if_neg hfirst]
      split at hnone
      · cases hnone
      · next hsecond =>
        rw [if_neg hsecond, if_neg hsecond]
        exact h.alone hnone
  · rcases owner_joined hij hbound hends hm with
      ⟨hn, rfl, rfl⟩ | ⟨hn, rfl, rfl⟩ | ⟨hn, hold⟩ <;>
      rcases owner_joined hij hbound hends hm' with
        ⟨hn', rfl, rfl⟩ | ⟨hn', rfl, rfl⟩ | ⟨hn', hold'⟩
    case inl.inl => exact ⟨rfl, rfl⟩
    case inr.inl.inr.inl => exact ⟨rfl, rfl⟩
    case inr.inr.inr.inr => exact h.injective hold hold'
    all_goals omega

end

/-- The ends after two cells have been joined. -/
theorem getD_join {ends : Array Ends} {i j : Nat} (a b : Ends) (hi : i < ends.size)
    (hj : j < ends.size) (k : Nat) :
    ((ends.setIfInBounds i a).setIfInBounds j b).getD k .none =
      if k = j then b else if k = i then a else ends.getD k .none := by
  simp only [Array.getD_eq_getD_getElem?, Array.getElem?_setIfInBounds, Array.size_setIfInBounds]
  by_cases hkj : k = j
  · subst hkj
    rw [if_pos rfl, if_pos hj, if_pos rfl, Option.getD_some]
  · rw [if_neg (Ne.symm hkj), if_neg hkj]
    by_cases hki : k = i
    · subst hki
      rw [if_pos rfl, if_pos hi, if_pos rfl, Option.getD_some]
    · rw [if_neg (Ne.symm hki), if_neg hki]

/-- Ends that are joined as the joins say, over links that nobody has used. -/
structure Wiring (n : Nat) (capacity : UInt64) (joins : List Join) (s : Fabric × Array Ends) :
    Prop where
  size : s.2.size = n
  wired : Wired (mates joins) (s.2.getD · .none)
  bound : ∀ {k d m}, (s.2.getD k .none).outbound.get d = some m → m < s.1.links.size
  /-- Every link has a cell that sends on it. -/
  owned : ∀ {m}, m < s.1.links.size → ∃ k d, (s.2.getD k .none).outbound.get d = some m
  fresh : ∀ {m : Nat} {l : Link}, s.1.links[m]? = some l → l = .ofCapacity capacity.toNat
  capacity : s.1.capacity = capacity
  stats : s.1.stats = {}

namespace Wiring

variable {n : Nat} {capacity : UInt64} {joins : List Join} {s s' : Fabric × Array Ends}

/-- No cell is joined with any. -/
theorem initial (n : Nat) (capacity : UInt64) :
    Wiring n capacity [] (Fabric.ofCapacity capacity, Array.replicate n Ends.none) := by
  have hnone : ∀ k, (Array.replicate n Ends.none).getD k .none = Ends.none := by
    intro k
    rw [Array.getD_eq_getD_getElem?, Array.getElem?_replicate]
    split <;> rfl
  have hout : ∀ {k d m}, ((Array.replicate n Ends.none).getD k .none).outbound.get d ≠ some m := by
    intro k d m
    rw [hnone, Ends.none, Compass.get_const]
    exact nofun
  refine ⟨Array.size_replicate, ⟨nofun, nofun, fun {k d} _ => ?_, fun h => absurd h hout⟩,
    fun h => absurd h hout, fun h => absurd h (Nat.not_lt_zero _), nofun, rfl, rfl⟩
  rw [hnone, Ends.none]
  exact ⟨Compass.get_const _ _, Compass.get_const _ _⟩

theorem join_eq (h : Wiring n capacity joins s) {p : Join} (hproper : Proper n (joins ++ [p]))
    (hcap : ¬ Fabric.greatestCapacity < capacity) : Fabric.join s p =
      .ok (s.1.extend, (s.2.setIfInBounds p.1
        ((s.2.getD p.1 .none).hold p.2.2 s.1.links.size (s.1.links.size + 1))).setIfInBounds p.2.1
        ((s.2.getD p.2.1 .none).hold p.2.2.opposite (s.1.links.size + 1) s.1.links.size)) := by
  obtain ⟨hfirst, hsecond⟩ := mates_free hproper
  rw [Fabric.join, Fabric.connect_eq (h.capacity ▸ hcap) (h.wired.alone hfirst)
    (h.wired.alone hsecond)]
  rfl

/-- **Joining two more cells keeps the wiring.** -/
theorem join (h : Wiring n capacity joins s) {p : Join} (hproper : Proper n (joins ++ [p]))
    (hok : Fabric.join s p = .ok s') : Wiring n capacity (joins ++ [p]) s' := by
  have hcap : ¬ Fabric.greatestCapacity < capacity := by
    intro hcap
    rw [Fabric.join, Fabric.connect_eq_error (h.capacity ▸ hcap)] at hok
    cases hok
  obtain ⟨-, hi, hj, hij, -⟩ := hproper.concat
  rw [h.join_eq hproper hcap] at hok
  obtain rfl := Except.ok.inj hok
  obtain ⟨hfirst, hsecond⟩ := mates_free hproper
  obtain ⟨i, j, d⟩ := p
  have hends := getD_join ((s.2.getD i .none).hold d s.1.links.size (s.1.links.size + 1))
    ((s.2.getD j .none).hold d.opposite (s.1.links.size + 1) s.1.links.size)
    (h.size.symm ▸ hi) (h.size.symm ▸ hj)
  have hsize : s.1.extend.links.size = s.1.links.size + 2 := by
    simp only [Fabric.extend, Array.size_push]
  refine ⟨?_, ?_, fun {k e m} hm => ?_, fun {m} hm => ?_, fun {m l} hl => ?_, h.capacity, h.stats⟩
  · rw [Array.size_setIfInBounds, Array.size_setIfInBounds, h.size]
  · rw [mates_concat]
    exact h.wired.join (mates_symm hproper.concat.1) hij hfirst hsecond h.bound hends
  · change m < s.1.extend.links.size
    rw [outbound_joined hij hends] at hm
    rw [hsize]
    split at hm
    · cases hm
      omega
    · split at hm
      · cases hm
        omega
      · have := h.bound hm
        omega
  · change m < s.1.extend.links.size at hm
    rw [hsize] at hm
    have hport : m = s.1.links.size ∨ m = s.1.links.size + 1 ∨ m < s.1.links.size := by omega
    rcases hport with rfl | rfl | hold
    · exact ⟨i, d, by rw [outbound_joined hij hends, if_pos ⟨rfl, rfl⟩]⟩
    · refine ⟨j, d.opposite, ?_⟩
      rw [outbound_joined hij hends, if_neg fun hk => hij hk.1.symm, if_pos ⟨rfl, rfl⟩]
    · -- an old link keeps its sender, since the new ones take up free ports
      obtain ⟨k, e, hout⟩ := h.owned hold
      refine ⟨k, e, ?_⟩
      rw [outbound_joined hij hends, if_neg, if_neg]
      · exact hout
      · rintro ⟨rfl, rfl⟩
        exact nomatch hout.symm.trans (h.wired.alone hsecond).1
      · rintro ⟨rfl, rfl⟩
        exact nomatch hout.symm.trans (h.wired.alone hfirst).1
  · simp only [Fabric.extend, Array.getElem?_push, h.capacity] at hl
    split at hl
    · exact (Option.some.inj hl).symm
    · split at hl
      · exact (Option.some.inj hl).symm
      · exact h.fresh hl

/-- **Cells joined one pair after the other are wired as the joins say.** -/
theorem of_joinAll {n : Nat} {capacity : UInt64} {joins : List Join} {s : Fabric × Array Ends}
    (hproper : Proper n joins) (hok : joins.foldlM Fabric.join
      (Fabric.ofCapacity capacity, Array.replicate n Ends.none) = .ok s) :
    Wiring n capacity joins s := by
  induction joins using List.reverseRecOn generalizing s with
  | nil =>
    obtain rfl := Except.ok.inj hok
    exact initial n capacity
  | append_singleton joins p ih =>
    rw [List.foldlM_append] at hok
    cases hs : joins.foldlM Fabric.join
        (Fabric.ofCapacity capacity, Array.replicate n Ends.none) with
    | error cause =>
      rw [hs] at hok
      cases hok
    | ok s₀ =>
      rw [hs] at hok
      exact (ih hproper.concat.1 hs).join hproper ((bind_pure _).symm.trans hok)

/-- **Links of a capacity that a link can have are never refused.** -/
theorem exists_joinAll {n : Nat} {capacity : UInt64} {joins : List Join}
    (hcap : ¬ Fabric.greatestCapacity < capacity) (hproper : Proper n joins) :
    ∃ s, joins.foldlM Fabric.join
      (Fabric.ofCapacity capacity, Array.replicate n Ends.none) = .ok s := by
  induction joins using List.reverseRecOn with
  | nil => exact ⟨_, rfl⟩
  | append_singleton joins p ih =>
    obtain ⟨s, hs⟩ := ih hproper.concat.1
    have hjoin := (of_joinAll hproper.concat.1 hs).join_eq hproper hcap
    rw [List.foldlM_append, hs]
    exact ⟨_, (bind_pure _).trans hjoin⟩

end Wiring

/-! ### The first concord -/

/-- The peer of a cell that has done nothing yet. -/
def Peer.fresh (cell : CellId) (edgeLength : Nat) (ends : Ends) : Peer where
  exchange := {
    cell := cell
    edgeLength := edgeLength
    sendOrder := (ends.outbound.map Option.isSome).directions id
    listening := ends.inbound.map Option.isSome
    lookahead := .const none
    unsent := 0 }
  ends := ends
  round := none

/-- Ends that are wired make a peer. -/
theorem Wired.create_eq {mate : Nat → Direction → Option Nat} {ends : Nat → Ends}
    (h : Wired mate ends) (hsymm : ∀ {k e b}, mate k e = some b → mate b e.opposite = some k)
    (cell : CellId) (edgeLength i : Nat) :
    Peer.create cell edgeLength (ends i) = .ok (.fresh cell edgeLength (ends i)) := by
  have hnone : (Direction.all.find? fun d => ((ends i).outbound.map Option.isSome).get d !=
      ((ends i).inbound.map Option.isSome).get d) = none := by
    refine List.find?_eq_none.2 fun d _ => ?_
    rw [Compass.get_map, Compass.get_map, bne_iff_ne, ne_eq, Decidable.not_not]
    cases hj : mate i d with
    | none =>
      obtain ⟨hout, hin⟩ := h.alone hj
      rw [hout, hin]
    | some j =>
      obtain ⟨n, hout⟩ := h.outbound hj
      obtain ⟨m, hin⟩ := h.outbound (hsymm hj)
      rw [hout, h.inbound hj, hin]
      rfl
  simp only [Peer.create, Exchange.create, hnone]
  rfl

/-- A traversal that succeeds at every place succeeds. -/
theorem mapM_eq_ok {α β ε : Type} {f : α → Except ε β} {g : α → β} {xs : List α}
    (h : ∀ x ∈ xs, f x = .ok (g x)) : xs.mapM f = .ok (xs.map g) := by
  induction xs with
  | nil => rfl
  | cons x xs ih =>
    rw [List.mapM_cons, h x List.mem_cons_self, ih fun y hy => h y (List.mem_cons_of_mem _ hy)]
    rfl

/-- The station of a cell that has done nothing yet. -/
def Plan.outset (P : Plan) (ends : Nat → Ends) (cell : Nat → CellId) (i : Nat) : Station :=
  ⟨.fresh (cell i) P.edgeLength (ends i), P.initial i, 0⟩

theorem Wired.sound_outset {P : Plan} {ends : Nat → Ends} (h : Wired P.mate ends)
    (cell : Nat → CellId) (i : Nat) : (P.outset ends cell i).Sound P i := by
  have hout : ∀ d, ((ends i).outbound.map Option.isSome).get d = (P.mate i d).isSome := by
    intro d
    rw [Compass.get_map]
    cases hj : P.mate i d with
    | none =>
      rw [(h.alone hj).1]
    | some j =>
      obtain ⟨n, hn⟩ := h.outbound hj
      rw [hn]
      rfl
  refine ⟨rfl, ?_, Nat.zero_le _, fun _ => rfl, nofun, fun d m hm => ?_, fun d => ?_,
    fun d hd => ?_⟩
  · change Direction.all.filter (fun d => ((ends i).outbound.map Option.isSome).get d) = _
    exact congrArg (fun p => Direction.all.filter p) (funext hout)
  · change (Compass.const none).get d = some m at hm
    rw [Compass.get_const] at hm
    cases hm
  · rw [Station.appliedOn_of_idle rfl]
    rfl
  · change ((ends i).inbound.map Option.isSome).get d = false
    rw [Compass.get_map, (h.alone hd).2, Option.isSome_none]

/-- **A network that is wired as a plan has it begins in concord.** -/
theorem Concord.initial {P : Plan} {ends : Nat → Ends} {f : Fabric} (capacity : Nat)
    (hwired : Wired P.mate ends) (cell : Nat → CellId)
    (hlinks : ∀ {i d n}, (ends i).outbound.get d = some n →
      f.links[n]? = some (.ofCapacity capacity))
    {crew : Crew} (hcrew : ∀ {i x}, crew i = some x → x = P.outset ends cell i)
    (hall : ∀ {i d j}, P.mate i d = some j → (crew i).isSome = true) :
    Concord P ends f crew where
  wired := hwired
  station := by
    rintro i x hi
    obtain rfl := hcrew hi
    exact ⟨rfl, hwired.sound_outset cell i⟩
  link := by
    rintro i d j hj
    obtain ⟨n, hn⟩ := hwired.outbound hj
    obtain ⟨x, hi⟩ := Option.isSome_iff_exists.1 (hall hj)
    obtain ⟨y, hj'⟩ := Option.isSome_iff_exists.1 (hall (P.mate_symm hj))
    have hx := hcrew hi
    have hy := hcrew hj'
    have hsent : crew.sent P i d = 0 := by
      rw [Crew.sent, hi, Option.elim_some, hx, Station.sentOn_of_idle rfl]
      rfl
    have htaken : crew.taken P j d.opposite = 0 := by
      rw [Crew.taken, hj', Option.elim_some, hy, Station.takenOn, Station.appliedOn_of_idle rfl]
      change 0 + (if ((Compass.const none).get d.opposite).isSome then 1 else 0) = 0
      rw [Compass.get_const]
      rfl
    refine ⟨n, .ofCapacity capacity, hn, hlinks hn, ?_⟩
    rw [hsent, htaken, hi, hj']
    exact ⟨(P.frames_self i d 0).symm, Nat.le_refl 0, Nat.le_max_right _ _, rfl, rfl⟩
  unheard := by
    rintro i x d j hi hj hclosed
    obtain rfl := hcrew hi
    obtain ⟨n, hn⟩ := hwired.outbound (P.mate_symm hj)
    change ((ends i).inbound.map Option.isSome).get d = false at hclosed
    rw [Compass.get_map, hwired.inbound hj, hn] at hclosed
    cases hclosed

end DiffusionMesh

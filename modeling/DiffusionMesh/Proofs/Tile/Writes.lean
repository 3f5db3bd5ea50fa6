/-
# A step on a tile, write by write

`LocalState.update` gives the new tile as a whole. The step itself visits the positions one after the
other: it reads a position and the four beside it, writes the new temperature into the tile under
construction, and stages it on each edge that the position lies on. `update?` is that loop with every
index checked; it stops at the first one that is out of range.

| access | index | in range of |
| --- | --- | --- |
| read and write of a tile | `row · S + column` | `S · S` places |
| read of an incoming edge, write of an outgoing one | `row` or `column` | `S` places |

Main statement: `update?_eq`, with tiles of size `S` and edges of `S` values no index is ever out of
range, and the loop gives what `update` does.
-/

import DiffusionMesh.Proofs.Image.Mosaic
import DiffusionMesh.Proofs.Tile.Field

namespace DiffusionMesh

/-- **A loop visits the places of its turns**: when every turn goes on and adds its places to those
visited before, so does the loop. -/
theorem exists_foldlM {σ ι κ : Type} (P : List κ → σ → Prop) (indices : List ι)
    (places : ι → List κ) {turn : σ → ι → Option σ}
    (hturn : ∀ {done s i}, i ∈ indices → P done s →
      ∃ s', turn s i = some s' ∧ P (done ++ places i) s')
    {done : List κ} {s : σ} (h : P done s) :
    ∃ s', indices.foldlM turn s = some s' ∧ P (done ++ indices.flatMap places) s' := by
  induction indices generalizing done s with
  | nil => exact ⟨s, rfl, by rwa [List.flatMap_nil, List.append_nil]⟩
  | cons i indices ih =>
    obtain ⟨s₁, h₁, hone⟩ := hturn List.mem_cons_self h
    obtain ⟨s₂, h₂, hall⟩ := ih (fun hi => hturn (List.mem_cons_of_mem _ hi)) hone
    refine ⟨s₂, ?_, ?_⟩
    · rw [List.foldlM_cons, h₁]
      exact h₂
    · rwa [List.append_assoc] at hall

/-- The edge with another temperature at a place, if the place is in range. -/
def Edge.set? (e : Edge) (i : Nat) (t : Temperature) : Option Edge :=
  if i < e.size then some (e.setIfInBounds i t) else none

namespace LocalState

/-- Where a position of a tile lies on an edge, if it does. -/
def onEdge? (size row column : Nat) : Direction → Option Nat
  | .north => if row = 0 then some column else none
  | .south => if row + 1 = size then some column else none
  | .east => if column + 1 = size then some row else none
  | .west => if column = 0 then some row else none

variable (s : LocalState)

/-- The neighbor of a position in a direction, if the place it is read from is in range. -/
def neighbor? (row column : Nat) : Direction → Option Temperature
  | .north => if row = 0 then s.incoming.north[column]? else s.current.get? (row - 1) column
  | .south =>
    if row + 1 = s.size then s.incoming.south[column]? else s.current.get? (row + 1) column
  | .east =>
    if column + 1 = s.size then s.incoming.east[row]? else s.current.get? row (column + 1)
  | .west => if column = 0 then s.incoming.west[row]? else s.current.get? row (column - 1)

/-- Stages the temperature of a position on the outgoing edge of a side, if the position lies on
it. -/
def stage? (row column : Nat) (t : Temperature) (d : Direction) : Option LocalState :=
  match onEdge? s.size row column d with
  | none => some s
  | some i =>
    ((s.outgoing.get d).set? i t).map fun e => { s with outgoing := s.outgoing.set d e }

/-- One turn of the loop. -/
def visit? (row column : Nat) : Option LocalState := do
  let old ← s.current.get? row column
  let west ← s.neighbor? row column .west
  let east ← s.neighbor? row column .east
  let north ← s.neighbor? row column .north
  let south ← s.neighbor? row column .south
  let new := nextTemperature old north south east west
  let next ← s.next.set? row column new
  Direction.all.foldlM (fun s d => s.stage? row column new d) { s with next := next }

/-- The loop of a step. There is no turn when the tile has no positions. -/
def update? : Option LocalState :=
  (List.range s.size).foldlM
    (fun s' row => (List.range s.size).foldlM (fun s' column => s'.visit? row column) s') s

end LocalState

/-! ### Reads and writes in range -/

namespace Tile

variable {t : Tile} {row column : Nat}

theorem get?_eq_value (hr : row < t.size) (hc : column < t.size) :
    t.get? row column = some (t.value row column) := by
  have hk : row * t.size + column < t.cells.size := t.cells_size ▸ index_lt hr hc
  rw [get?, value, Array.getD_eq_getD_getElem?, Array.getElem?_eq_getElem hk, Option.getD_some]

/-- A write in range changes one position. -/
theorem exists_set? (hr : row < t.size) (hc : column < t.size) (v : Temperature) :
    ∃ t', t.set? row column v = some t' ∧ t'.size = t.size ∧
      ∀ r c, r < t.size → c < t.size →
        t'.get? r c = if r = row ∧ c = column then some v else t.get? r c := by
  have hk : row * t.size + column < t.cells.size := t.cells_size ▸ index_lt hr hc
  refine ⟨_, if_pos hk, rfl, fun r c hr' hc' => ?_⟩
  simp only [get?, Array.getElem?_setIfInBounds]
  by_cases hat : r = row ∧ c = column
  · obtain ⟨rfl, rfl⟩ := hat
    rw [if_pos rfl, if_pos hk, if_pos ⟨rfl, rfl⟩]
  · rw [if_neg hat, if_neg fun h => hat ?_]
    obtain ⟨hrow, hcolumn⟩ := eq_of_mul_add_eq hc hc' h
    exact ⟨hrow.symm, hcolumn.symm⟩

/-- A tile is determined by its temperatures. -/
theorem ext_get? {t t' : Tile} (hsize : t.size = t'.size)
    (h : ∀ r c, r < t.size → c < t.size → t.get? r c = t'.get? r c) : t = t' := by
  obtain ⟨size, cells, hcells⟩ := t
  obtain ⟨size', cells', hcells'⟩ := t'
  obtain rfl : size = size' := hsize
  have heq : cells = cells' := by
    refine Array.ext (hcells.trans hcells'.symm) fun k hk hk' => ?_
    have hlt : k < size * size := hcells ▸ hk
    have hpos : 0 < size := Nat.pos_of_mul_pos_left (Nat.zero_lt_of_lt hlt)
    have hget := h (k / size) (k % size) (Nat.div_lt_of_lt_mul hlt) (Nat.mod_lt _ hpos)
    simp only [get?, Nat.div_add_mod', Array.getElem?_eq_getElem hk,
      Array.getElem?_eq_getElem hk'] at hget
    exact Option.some.inj hget
  subst heq
  rfl

end Tile

theorem Edge.exists_set? {e : Edge} {i : Nat} (hi : i < e.size) (v : Temperature) :
    ∃ e', e.set? i v = some e' ∧ e'.size = e.size ∧
      ∀ j : Nat, e'[j]? = if j = i then some v else e[j]? := by
  refine ⟨_, if_pos hi, Array.size_setIfInBounds, fun j => ?_⟩
  rw [Array.getElem?_setIfInBounds]
  by_cases hj : j = i
  · rw [if_pos hj.symm, if_pos hi, if_pos hj]
  · rw [if_neg (Ne.symm hj), if_neg hj]

theorem Edge.getElem?_eq_value {e : Edge} {i : Nat} (hi : i < e.size) :
    e[i]? = some (e.value i) := by
  rw [value, Array.getD_eq_getD_getElem?, Array.getElem?_eq_getElem hi, Option.getD_some]

namespace LocalState

/-- Tiles and edges that fit each other. -/
structure Fits (s : LocalState) : Prop where
  next : s.next.size = s.size
  incoming : ∀ d, (s.incoming.get d).size = s.size
  outgoing : ∀ d, (s.outgoing.get d).size = s.size

variable {s t : LocalState} {row column : Nat}

/-- The five reads of a turn are in range. -/
theorem neighbor?_eq (h : s.Fits) (hr : row < s.size) (hc : column < s.size) (d : Direction) :
    s.neighbor? row column d = some (s.neighbor row column d) := by
  have hincoming := h.incoming
  have hsize : s.current.size = s.size := rfl
  cases d with
  | north =>
    rw [neighbor?, neighbor]
    split
    · exact Edge.getElem?_eq_value ((hincoming .north).symm ▸ hc)
    · exact Tile.get?_eq_value (by omega) (by omega)
  | south =>
    rw [neighbor?, neighbor]
    split
    · exact Edge.getElem?_eq_value ((hincoming .south).symm ▸ hc)
    · exact Tile.get?_eq_value (by omega) (by omega)
  | east =>
    rw [neighbor?, neighbor]
    split
    · exact Edge.getElem?_eq_value ((hincoming .east).symm ▸ hr)
    · exact Tile.get?_eq_value (by omega) (by omega)
  | west =>
    rw [neighbor?, neighbor]
    split
    · exact Edge.getElem?_eq_value ((hincoming .west).symm ▸ hr)
    · exact Tile.get?_eq_value (by omega) (by omega)

/-- Only the current tile and the incoming edges are read. -/
theorem neighbor?_congr (hcurrent : t.current = s.current) (hincoming : t.incoming = s.incoming) :
    t.neighbor? = s.neighbor? := by
  obtain ⟨current, next, incoming, outgoing⟩ := t
  obtain rfl : current = s.current := hcurrent
  obtain rfl : incoming = s.incoming := hincoming
  funext row column d
  cases d <;> rfl

theorem onEdge?_lt {size : Nat} {d : Direction} {i : Nat} (hr : row < size) (hc : column < size)
    (h : onEdge? size row column d = some i) : i < size := by
  cases d <;> simp only [onEdge?] at h <;> split at h <;> cases h <;>
    first | exact hr | exact hc

/-- The position at a place of an edge. -/
def edgeSpot (size i : Nat) : Direction → Nat × Nat
  | .north => (0, i)
  | .south => (size - 1, i)
  | .east => (i, size - 1)
  | .west => (i, 0)

/-- Each place of an edge belongs to one position. -/
theorem onEdge?_eq_some_iff {size : Nat} {d : Direction} {i : Nat} (hc : column < size) :
    onEdge? size row column d = some i ↔ (row, column) = edgeSpot size i d := by
  cases d <;> simp only [onEdge?, edgeSpot, Option.ite_none_right_eq_some, Option.some.injEq,
    Prod.mk.injEq] <;> omega

theorem edgeSpot_lt {size i : Nat} (hi : i < size) (d : Direction) :
    (edgeSpot size i d).1 < size ∧ (edgeSpot size i d).2 < size := by
  cases d <;> simp only [edgeSpot] <;> omega

theorem borderOf_eq (t : Tile) (d : Direction) : borderOf t d =
    Array.ofFn fun k : Fin t.size => t.value (edgeSpot t.size k.val d).1 (edgeSpot t.size k.val d).2 := by
  cases d <;> rfl

/-! ### What a turn writes -/

/-- What staging a temperature on some sides leaves. -/
structure Staged (t : LocalState) (row column : Nat) (v : Temperature) (ds : List Direction)
    (t' : LocalState) : Prop where
  current : t'.current = t.current
  next : t'.next = t.next
  incoming : t'.incoming = t.incoming
  size : ∀ d, (t'.outgoing.get d).size = (t.outgoing.get d).size
  outgoing : ∀ (d : Direction) (i : Nat), (t'.outgoing.get d)[i]? =
    if d ∈ ds ∧ onEdge? t.size row column d = some i then some v else (t.outgoing.get d)[i]?

theorem Staged.refl (t : LocalState) (row column : Nat) (v : Temperature) :
    t.Staged row column v [] t :=
  ⟨rfl, rfl, rfl, fun _ => rfl, fun _ _ => (if_neg fun h => nomatch h.1).symm⟩

/-- A temperature is staged in range. -/
theorem exists_stage? (hr : row < t.size) (hc : column < t.size)
    (hout : ∀ d, (t.outgoing.get d).size = t.size) (v : Temperature) (d : Direction) :
    ∃ t', t.stage? row column v d = some t' ∧ t.Staged row column v [d] t' := by
  cases hi : onEdge? t.size row column d with
  | none =>
    refine ⟨t, by simp only [stage?, hi], rfl, rfl, rfl, fun _ => rfl, fun e j => ?_⟩
    rw [if_neg]
    rintro ⟨he, hj⟩
    rw [List.mem_singleton.1 he, hi] at hj
    cases hj
  | some i =>
    obtain ⟨e, he, hsize, hget⟩ := Edge.exists_set? (e := t.outgoing.get d)
      ((hout d).symm ▸ onEdge?_lt hr hc hi) v
    refine ⟨{ t with outgoing := t.outgoing.set d e }, by simp only [stage?, hi, he, Option.map_some],
      rfl, rfl, rfl, fun d' => ?_, fun d' j => ?_⟩
    · rw [Compass.get_set]
      split
      · next hd => rw [hsize, hd]
      · rfl
    · rw [Compass.get_set]
      by_cases hd : d' = d
      · subst hd
        rw [if_pos rfl, hget, hi]
        simp only [List.mem_singleton, true_and, Option.some.injEq, eq_comm]
      · rw [if_neg hd, if_neg fun h => hd (List.mem_singleton.1 h.1)]

theorem exists_stages? (ds : List Direction) (hr : row < t.size) (hc : column < t.size)
    (hout : ∀ d, (t.outgoing.get d).size = t.size) (v : Temperature) :
    ∃ t', ds.foldlM (fun s d => s.stage? row column v d) t = some t' ∧
      t.Staged row column v ds t' := by
  induction ds generalizing t with
  | nil => exact ⟨t, rfl, .refl t row column v⟩
  | cons d ds ih =>
    obtain ⟨t₁, h₁, hstaged⟩ := exists_stage? hr hc hout v d
    have hsize : t₁.size = t.size := congrArg Tile.size hstaged.current
    obtain ⟨t₂, h₂, hrest⟩ := ih (t := t₁) (by omega) (by omega)
      fun e => (hstaged.size e).trans ((hout e).trans hsize.symm)
    refine ⟨t₂, ?_, hrest.current.trans hstaged.current, hrest.next.trans hstaged.next,
      hrest.incoming.trans hstaged.incoming, fun e => (hrest.size e).trans (hstaged.size e),
      fun e i => ?_⟩
    · rw [List.foldlM_cons, h₁]
      exact h₂
    · rw [hrest.outgoing, hstaged.outgoing, hsize]
      by_cases hi : onEdge? t.size row column e = some i
      · by_cases he : e ∈ ds
        · rw [if_pos ⟨he, hi⟩, if_pos ⟨List.mem_cons_of_mem _ he, hi⟩]
        · simp only [he, hi, false_and, if_false, List.mem_cons, List.not_mem_nil, or_false]
      · simp only [hi, and_false, if_false]

/-- What a turn for a position leaves: its new temperature in the tile under construction, and on the
edges that it lies on. -/
structure Turned (t : LocalState) (row column : Nat) (v : Temperature) (t' : LocalState) :
    Prop where
  current : t'.current = t.current
  incoming : t'.incoming = t.incoming
  size_next : t'.next.size = t.next.size
  size_outgoing : ∀ d, (t'.outgoing.get d).size = (t.outgoing.get d).size
  next : ∀ r c, r < t.next.size → c < t.next.size →
    t'.next.get? r c = if r = row ∧ c = column then some v else t.next.get? r c
  outgoing : ∀ (d : Direction) (i : Nat), (t'.outgoing.get d)[i]? =
    if onEdge? t.size row column d = some i then some v else (t.outgoing.get d)[i]?

/-- What the turns for some positions leave. -/
structure Visited (s : LocalState) (done : List (Nat × Nat)) (t : LocalState) : Prop where
  inRange : ∀ r c, (r, c) ∈ done → r < s.size ∧ c < s.size
  current : t.current = s.current
  incoming : t.incoming = s.incoming
  size_next : t.next.size = s.size
  size_outgoing : ∀ d, (t.outgoing.get d).size = s.size
  next : ∀ r c, (r, c) ∈ done → t.next.get? r c = some (s.nextAt r c)
  outgoing : ∀ (d : Direction) r c (i : Nat), (r, c) ∈ done →
    onEdge? s.size r c d = some i → (t.outgoing.get d)[i]? = some (s.nextAt r c)

namespace Visited

variable {done : List (Nat × Nat)}

theorem size (h : s.Visited done t) : t.size = s.size := congrArg Tile.size h.current

/-- A turn that comes after others reads and writes in range. -/
theorem exists_visit? (h : s.Visited done t) (hfits : s.Fits) (hr : row < s.size)
    (hc : column < s.size) :
    ∃ t', t.visit? row column = some t' ∧ t.Turned row column (s.nextAt row column) t' := by
  have hread : t.current.get? row column = some (s.current.value row column) := by
    rw [h.current]
    exact Tile.get?_eq_value hr hc
  have hneighbor : ∀ d, t.neighbor? row column d = some (s.neighbor row column d) := by
    intro d
    rw [neighbor?_congr h.current h.incoming, neighbor?_eq hfits hr hc]
  obtain ⟨next, hnext, hsize, hget⟩ := Tile.exists_set? (t := t.next)
    (h.size_next.symm ▸ hr) (h.size_next.symm ▸ hc) (s.nextAt row column)
  obtain ⟨t', hstages, hstaged⟩ := exists_stages? (t := { t with next := next }) Direction.all
    (h.size.symm ▸ hr) (h.size.symm ▸ hc) (fun d => (h.size_outgoing d).trans h.size.symm)
    (s.nextAt row column)
  refine ⟨t', ?_, hstaged.current, hstaged.incoming, ?_, hstaged.size, fun r c hr' hc' => ?_,
    fun d i => ?_⟩
  · simp only [nextAt] at hnext hstages
    simp only [visit?, hread, hneighbor, Option.bind_eq_bind, Option.bind_some, hnext, hstages]
  · rw [hstaged.next]
    exact hsize
  · rw [hstaged.next]
    exact hget r c hr' hc'
  · rw [hstaged.outgoing]
    simp only [d.mem_all, true_and]
    rfl

/-- A turn adds its position to those visited, and keeps what earlier turns have written. -/
theorem concat {t' : LocalState} (h : s.Visited done t)
    (hturned : t.Turned row column (s.nextAt row column) t') (hr : row < s.size)
    (hc : column < s.size) : s.Visited (done ++ [(row, column)]) t' := by
  have hinRange : ∀ r c, (r, c) ∈ done ++ [(row, column)] → r < s.size ∧ c < s.size := by
    intro r c hmem
    rcases List.mem_append.1 hmem with hold | hnew
    · exact h.inRange r c hold
    · obtain ⟨rfl, rfl⟩ := Prod.mk.inj (List.mem_singleton.1 hnew)
      exact ⟨hr, hc⟩
  refine ⟨hinRange, hturned.current.trans h.current, hturned.incoming.trans h.incoming,
    hturned.size_next.trans h.size_next,
    fun d => (hturned.size_outgoing d).trans (h.size_outgoing d), fun r c hmem => ?_,
    fun d r c i hmem hi => ?_⟩
  · obtain ⟨hr', hc'⟩ := hinRange r c hmem
    rw [hturned.next r c (h.size_next.symm ▸ hr') (h.size_next.symm ▸ hc')]
    split
    · next hat => rw [hat.1, hat.2]
    · next hat =>
      rcases List.mem_append.1 hmem with hold | hnew
      · exact h.next r c hold
      · exact absurd (Prod.mk.inj (List.mem_singleton.1 hnew)) hat
  · rw [hturned.outgoing, h.size]
    split
    · next hplace =>
      -- two positions at one place of an edge are the same
      have hsame := (onEdge?_eq_some_iff hc).1 hplace
      rw [← (onEdge?_eq_some_iff (hinRange r c hmem).2).1 hi] at hsame
      rw [(Prod.mk.inj hsame).1, (Prod.mk.inj hsame).2]
    · next hplace =>
      rcases List.mem_append.1 hmem with hold | hnew
      · exact h.outgoing d r c i hold hi
      · obtain ⟨rfl, rfl⟩ := Prod.mk.inj (List.mem_singleton.1 hnew)
        exact absurd hi hplace

/-! ### The loop -/

/-- **The loop of a step stays in range** and visits every position. -/
theorem exists_update? (h : s.Visited [] s) (hfits : s.Fits) : ∃ t, s.update? = some t ∧
    s.Visited ((List.range s.size).flatMap fun r => (List.range s.size).flatMap fun c => [(r, c)])
      t := by
  refine exists_foldlM s.Visited _ _ (fun {done t r} hr ht => ?_) h
  refine exists_foldlM s.Visited _ _ (fun {done t c} hc ht => ?_) ht
  have hr := List.mem_range.1 hr
  have hc := List.mem_range.1 hc
  obtain ⟨t', hvisit, hturned⟩ := ht.exists_visit? hfits hr hc
  exact ⟨t', hvisit, ht.concat hturned hr hc⟩

/-- Once every position has been visited, the step is done. -/
theorem eq_update (h : s.Visited done t) (hfits : s.Fits)
    (hall : ∀ r c, r < s.size → c < s.size → (r, c) ∈ done) : t = s.update := by
  have hnext : t.next = Tile.ofFn s.size s.nextAt := by
    refine Tile.ext_get? h.size_next fun r c hr hc => ?_
    rw [h.size_next] at hr hc
    rw [h.next r c (hall r c hr hc), Tile.get?_ofFn _ hr hc]
  have houtgoing : t.outgoing = .ofFn (borderOf (Tile.ofFn s.size s.nextAt)) := by
    refine Compass.ext_get fun d => ?_
    rw [Compass.get_ofFn]
    refine Array.ext_getElem? fun i => ?_
    by_cases hi : i < s.size
    · obtain ⟨hr, hc⟩ := edgeSpot_lt hi d
      rw [h.outgoing d _ _ i (hall _ _ hr hc) ((onEdge?_eq_some_iff hc).2 rfl),
        Edge.getElem?_eq_value ((size_borderOf _ d).symm ▸ hi), borderOf_eq]
      refine congrArg some (Eq.symm ((Edge.value_ofFn (fun k => (Tile.ofFn s.size s.nextAt).value
        (edgeSpot s.size k d).1 (edgeSpot s.size k d).2) hi).trans ?_))
      exact Tile.value_ofFn _ hr hc
    · rw [Array.getElem?_eq_none (by rw [h.size_outgoing]; omega),
        Array.getElem?_eq_none (by rw [size_borderOf]; exact Nat.not_lt.1 hi)]
  have hstate : t = { s with next := t.next, outgoing := t.outgoing } := by
    rw [← h.current, ← h.incoming]
  rw [hstate, update]
  split
  · next hzero =>
    have hsame : t.next = s.next :=
      Tile.eq_of_size_eq_zero (h.size_next.trans hzero) (hfits.next.trans hzero)
    have hedges : t.outgoing = s.outgoing := Compass.ext_get fun d => by
      rw [Array.eq_empty_of_size_eq_zero ((h.size_outgoing d).trans hzero),
        Array.eq_empty_of_size_eq_zero ((hfits.outgoing d).trans hzero)]
    rw [hsame, hedges]
  · rw [hnext, houtgoing]

end Visited

/-- **With tiles and edges that fit each other no index is out of range**, and the loop gives what
`update` does. -/
theorem update?_eq (h : s.Fits) : s.update? = some s.update := by
  have houtset : s.Visited [] s := ⟨nofun, rfl, rfl, h.next, h.outgoing, nofun, nofun⟩
  obtain ⟨t, ht, hvisited⟩ := houtset.exists_update? h
  rw [ht, hvisited.eq_update h]
  intro r c hr hc
  exact List.mem_flatMap.2 ⟨r, List.mem_range.2 hr,
    List.mem_flatMap.2 ⟨c, List.mem_range.2 hc, List.mem_singleton_self _⟩⟩

end LocalState
end DiffusionMesh

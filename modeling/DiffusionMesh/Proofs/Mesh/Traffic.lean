/-
# Traffic at a cell

What a cell does to the links it holds, it does to the links of the whole mesh. When its ends are
apart, the links that are put back after a poll stand where they were taken from, and the frames
that are on their way in the mesh change by as many as those at the cell:

```
   all frames after + frames at the cell before = all frames before + frames at the cell after
```

Main statements: `Fabric.ports_store`, `Fabric.queued_store` and `Fabric.lengths_release`.
-/

import DiffusionMesh.Proofs.Halo.Ledger
import DiffusionMesh.Proofs.Mesh.Links

namespace DiffusionMesh

/-- Ends at different links, all of them among the first `n`. -/
structure Ends.Apart (ends : Ends) (n : Nat) : Prop where
  outbound_lt : ∀ {d i}, ends.outbound.get d = some i → i < n
  inbound_lt : ∀ {d i}, ends.inbound.get d = some i → i < n
  outbound_inj : ∀ {d e i}, ends.outbound.get d = some i → ends.outbound.get e = some i → d = e
  inbound_inj : ∀ {d e i}, ends.inbound.get d = some i → ends.inbound.get e = some i → d = e
  crossed : ∀ {d e i}, ends.outbound.get d = some i → ends.inbound.get e ≠ some i

/-- Links that stand where others stand. -/
structure Ports.Replaces (p q : Ports) : Prop where
  outbound : ∀ d, (p.outbound.get d).isSome = (q.outbound.get d).isSome
  inbound : ∀ d, (p.inbound.get d).isSome = (q.inbound.get d).isSome

/-- The ledger of a session replaces links only by links. -/
theorem Session.Ledger.replaces {s next : Session} {acts : List Act} (h : s.Ledger acts next) :
    next.ports.Replaces s.ports := ⟨h.outbound, h.inbound⟩

namespace Fabric

variable {f : Fabric} {ends : Ends} {p : Ports} {d : Direction} {i : Nat}

theorem size_store (f : Fabric) (ends : Ends) (p : Ports) :
    (f.store ends p).links.size = f.links.size := by
  have hfold : ∀ (ds : List Direction) (f : Fabric), (ds.foldl (fun f d =>
      (f.put (ends.outbound.get d) (p.outbound.get d)).put (ends.inbound.get d)
        (p.inbound.get d)) f).links.size = f.links.size := by
    intro ds
    induction ds with
    | nil => exact fun f => rfl
    | cons d ds ih =>
      intro f
      rw [List.foldl_cons, ih, size_put, size_put]
  exact hfold Direction.all f

/-- A cell has the link that stands at its end. -/
theorem get_outbound_ports (h : ends.outbound.get d = some i) :
    (f.ports ends).outbound.get d = f.links[i]? := by
  rw [ports, Compass.get_map, h, Option.bind_some]

theorem get_inbound_ports (h : ends.inbound.get d = some i) :
    (f.ports ends).inbound.get d = f.links[i]? := by
  rw [ports, Compass.get_map, h, Option.bind_some]

/-- **Links that are put back are found again.** -/
theorem ports_store (h : ends.Apart f.links.size) (hp : p.Replaces (f.ports ends)) :
    (f.store ends p).ports ends = p := by
  have hout : ∀ d, ((f.store ends p).ports ends).outbound.get d = p.outbound.get d := by
    intro d
    have hsome := hp.outbound d
    cases hd : ends.outbound.get d with
    | none =>
      rw [ports, Compass.get_map, hd] at hsome ⊢
      exact (Option.not_isSome_iff_eq_none.1 (by rw [hsome]; exact Bool.false_ne_true)).symm
    | some i =>
      have hlt := h.outbound_lt hd
      rw [get_outbound_ports hd, Array.getElem?_eq_getElem hlt] at hsome
      obtain ⟨l, hl⟩ := Option.isSome_iff_exists.1 hsome
      rw [get_outbound_ports hd, hl]
      refine getElem?_store (fun e he => ?_) (fun e he => ?_) (.inr ⟨hlt, d, .inl hd⟩)
      · rw [h.outbound_inj he hd, hl]
      · exact absurd he (h.crossed hd)
  have hin : ∀ d, ((f.store ends p).ports ends).inbound.get d = p.inbound.get d := by
    intro d
    have hsome := hp.inbound d
    cases hd : ends.inbound.get d with
    | none =>
      rw [ports, Compass.get_map, hd] at hsome ⊢
      exact (Option.not_isSome_iff_eq_none.1 (by rw [hsome]; exact Bool.false_ne_true)).symm
    | some i =>
      have hlt := h.inbound_lt hd
      rw [get_inbound_ports hd, Array.getElem?_eq_getElem hlt] at hsome
      obtain ⟨l, hl⟩ := Option.isSome_iff_exists.1 hsome
      rw [get_inbound_ports hd, hl]
      refine getElem?_store (fun e he => ?_) (fun e he => ?_) (.inr ⟨hlt, d, .inr hd⟩)
      · exact absurd hd (h.crossed he)
      · rw [h.inbound_inj he hd, hl]
  cases p with
  | mk outbound inbound =>
    exact congrArg₂ Ports.mk (Compass.ext_get hout) (Compass.ext_get hin)

/-! ### Frames on the way -/

/-- The number of frames on each link. -/
def lengths (f : Fabric) : List Nat := f.links.toList.map fun l => l.queue.length

/-- **The number of frames that are on their way** in the whole mesh. -/
def queued (f : Fabric) : Nat := f.lengths.sum

/-- The number of frames on a link. -/
def load (f : Fabric) (end? : Option Nat) : Nat := end?.elim 0 fun i => f.lengths.getD i 0

theorem getElem?_lengths (f : Fabric) (i : Nat) :
    f.lengths[i]? = (f.links[i]?).map fun l => l.queue.length := by
  rw [lengths, List.getElem?_map, Array.getElem?_toList]

theorem lengths_put (f : Fabric) (i : Nat) (l : Link) :
    (f.put (some i) (some l)).lengths = f.lengths.set i l.queue.length := by
  simp only [lengths, put, Array.toList_setIfInBounds, List.map_set]

/-- A link that is put at a place leaves all other places alone. -/
theorem load_put_of_ne {end? other : Option Nat} {link : Option Link}
    (h : other = end? → other = none) : (f.put end? link).load other = f.load other := by
  cases other with
  | none => rfl
  | some j =>
    cases end? with
    | none => rfl
    | some i =>
      cases link with
      | none => rfl
      | some l =>
        have hij : i ≠ j := fun hij => nomatch h (congrArg some hij.symm)
        simp only [load, lengths_put, Option.elim_some, List.getD_eq_getElem?_getD,
          List.getElem?_set_ne hij]

/-- A link that is put in the place of another brings its frames and takes the others away. -/
theorem queued_put (l : Link) (hi : i < f.links.size) :
    (f.put (some i) (some l)).queued + f.load (some i) = f.queued + l.queue.length := by
  have hlt : i < f.lengths.length := by
    rw [lengths, List.length_map, Array.length_toList]
    exact hi
  have hload : f.load (some i) = f.lengths[i] := by
    rw [load, Option.elim_some, List.getD_eq_getElem?_getD, List.getElem?_eq_getElem hlt,
      Option.getD_some]
  have hset := List.sum_set f.lengths i l.queue.length
  have hself := List.sum_set f.lengths i f.lengths[i]
  rw [if_pos hlt] at hset hself
  rw [List.set_getElem_self] at hself
  rw [queued, queued, lengths_put, hload]
  omega

/-- The places that a cell puts links to, with the links. -/
def puts (ends : Ends) (p : Ports) : List (Option Nat × Option Link) :=
  Direction.all.flatMap fun d =>
    [(ends.outbound.get d, p.outbound.get d), (ends.inbound.get d, p.inbound.get d)]

theorem store_eq_puts (f : Fabric) (ends : Ends) (p : Ports) :
    f.store ends p = (puts ends p).foldl (fun f e => f.put e.1 e.2) f := rfl

/-- Links that are put at different places each bring their frames and take those away that were
there. -/
theorem queued_foldl_put {es : List (Option Nat × Option Link)}
    (happart : es.Pairwise fun a b => b.1 = a.1 → b.1 = none)
    (hvalid : ∀ e ∈ es, e = (none, none) ∨ ∃ i l, e = (some i, some l) ∧ i < f.links.size) :
    (es.foldl (fun f e => f.put e.1 e.2) f).queued + (es.map fun e => f.load e.1).sum =
      f.queued + (es.map fun e => e.2.elim 0 fun l => l.queue.length).sum := by
  induction es generalizing f with
  | nil => rfl
  | cons e es ih =>
    obtain ⟨he, happart⟩ := List.pairwise_cons.1 happart
    obtain ⟨hfirst, hvalid⟩ := List.forall_mem_cons.1 hvalid
    have hloads : es.map (fun e' => (f.put e.1 e.2).load e'.1) = es.map fun e' => f.load e'.1 :=
      List.map_congr_left fun e' he' => load_put_of_ne (he e' he')
    have hrest := ih (f := f.put e.1 e.2) happart (by rwa [size_put])
    have hone : (f.put e.1 e.2).queued + f.load e.1 =
        f.queued + e.2.elim 0 fun l => l.queue.length := by
      rcases hfirst with rfl | ⟨i, l, rfl, hi⟩
      · rfl
      · exact queued_put l hi
    rw [hloads] at hrest
    simp only [List.foldl_cons, List.map_cons, List.sum_cons]
    omega

theorem sum_puts (q : Option Nat × Option Link → Nat) (ends : Ends) (p : Ports) :
    ((puts ends p).map q).sum = (Direction.all.map fun d =>
      q (ends.outbound.get d, p.outbound.get d) + q (ends.inbound.get d, p.inbound.get d)).sum := by
  simp only [puts, Direction.all, List.flatMap_cons, List.flatMap_nil, List.cons_append,
    List.nil_append, List.map_cons, List.map_nil, List.sum_cons, List.sum_nil]
  omega

/-- The frames on the link at an end are the load of that link. -/
theorem length_queue (f : Fabric) (end? : Option Nat) :
    ((end?.bind (f.links[·]?)).elim [] Link.queue).length = f.load end? := by
  rw [load]
  cases end? with
  | none => rfl
  | some i =>
    rw [Option.bind_some, Option.elim_some, List.getD_eq_getElem?_getD, getElem?_lengths]
    cases f.links[i]? <;> rfl

/-- The links that a cell holds can be put back. -/
theorem valid_puts (h : ends.Apart f.links.size) (hp : p.Replaces (f.ports ends)) :
    ∀ e ∈ puts ends p, e = (none, none) ∨ ∃ i l, e = (some i, some l) ∧ i < f.links.size := by
  have hone : ∀ {end? : Option Nat} {link : Option Link}, (∀ i, end? = some i → i < f.links.size) →
      link.isSome = (end?.bind (f.links[·]?)).isSome →
      (end?, link) = (none, none) ∨ ∃ i l, (end?, link) = (some i, some l) ∧ i < f.links.size := by
    intro end? link hlt hsome
    cases end? with
    | none =>
      cases link with
      | none => exact .inl rfl
      | some l => cases hsome
    | some i =>
      have hi := hlt i rfl
      rw [Option.bind_some, Array.getElem?_eq_getElem hi] at hsome
      obtain ⟨l, rfl⟩ := Option.isSome_iff_exists.1 hsome
      exact .inr ⟨i, l, rfl, hi⟩
  intro e he
  obtain ⟨d, -, he⟩ := List.mem_flatMap.1 he
  have hout := hp.outbound d
  have hin := hp.inbound d
  rw [ports, Compass.get_map] at hout hin
  rcases List.mem_pair.1 he with rfl | rfl
  · exact hone (fun i hi => h.outbound_lt hi) hout
  · exact hone (fun i hi => h.inbound_lt hi) hin

/-- No two links that a cell holds stand at the same place. -/
theorem pairwise_puts {n : Nat} (h : ends.Apart n) (p : Ports) :
    (puts ends p).Pairwise fun a b => b.1 = a.1 → b.1 = none := by
  have hcrossed : ∀ d e, ends.inbound.get e = ends.outbound.get d → ends.inbound.get e = none := by
    intro d e hde
    cases hi : ends.inbound.get e with
    | none => rfl
    | some i => exact absurd hi (h.crossed (hde.symm.trans hi))
  have hnone : ∀ {end? : Option Nat}, (∀ i, end? = some i → False) → end? = none :=
    fun hno => Option.eq_none_iff_forall_ne_some.2 hno
  refine List.pairwise_flatMap.2 ⟨fun d _ => ?_, ?_⟩
  · exact List.pairwise_pair.2 (hcrossed d d)
  · refine List.Pairwise.imp_of_mem (R := (· ≠ ·)) (fun {d e} _ _ hde a ha b hb hab => ?_)
      (by decide : Direction.all.Pairwise (· ≠ ·))
    rcases List.mem_pair.1 ha with rfl | rfl <;> rcases List.mem_pair.1 hb with rfl | rfl
    · exact hnone fun i hi => hde (h.outbound_inj (hab.symm.trans hi) hi)
    · exact hcrossed d e hab
    · exact hnone fun i hi => h.crossed hi (hab.symm.trans hi)
    · exact hnone fun i hi => hde (h.inbound_inj (hab.symm.trans hi) hi)

/-- **Links that are put back** change the frames on their way in the mesh by as many as those at
the cell. -/
theorem queued_store (h : ends.Apart f.links.size) (hp : p.Replaces (f.ports ends)) :
    (f.store ends p).queued + (f.ports ends).queued = f.queued + p.queued := by
  have hputs := queued_foldl_put (pairwise_puts h p) (valid_puts h hp)
  have hafter : ((puts ends p).map fun e => e.2.elim 0 fun l => l.queue.length).sum = p.queued := by
    rw [sum_puts, Ports.queued]
    refine congrArg List.sum (List.map_congr_left fun d _ => ?_)
    rw [Ports.outQueue, Ports.inQueue]
    cases p.outbound.get d <;> cases p.inbound.get d <;> rfl
  have hbefore : ((puts ends p).map fun e => f.load e.1).sum = (f.ports ends).queued := by
    rw [sum_puts, Ports.queued]
    simp only [Ports.outQueue, Ports.inQueue, ports, Compass.get_map, length_queue]
  rw [store_eq_puts]
  omega

theorem lengths_modify {end? : Option Nat} {change : Link → Link}
    (h : ∀ i l, end? = some i → f.links[i]? = some l →
      (change l).queue.length = l.queue.length) : (f.modify end? change).lengths = f.lengths := by
  refine List.ext_getElem? fun i => ?_
  rw [getElem?_lengths, getElem?_lengths, getElem?_modify]
  split
  · next hi =>
    cases hl : f.links[i]? with
    | none => rfl
    | some l => exact congrArg some (h i l hi hl)
  · rfl

/-- **A cell with nothing on its way takes no frame with it when it leaves.** -/
theorem lengths_release (h : ∀ d i, ends.inbound.get d = some i → f.load (some i) = 0) :
    (f.release ends).lengths = f.lengths := by
  have hfold : ∀ (ds : List Direction) (f' : Fabric), f'.lengths = f.lengths →
      (ds.foldl (fun f d => (f.closeSender (ends.outbound.get d)).closeReceiver
        (ends.inbound.get d)) f').lengths = f.lengths := by
    intro ds
    induction ds with
    | nil => exact fun f' hf' => hf'
    | cons d ds ih =>
      intro f' hf'
      have hsender : (f'.closeSender (ends.outbound.get d)).lengths = f.lengths := by
        rw [closeSender, lengths_modify, hf']
        exact fun _ _ _ _ => rfl
      refine ih _ ((lengths_modify fun i l hi hl => ?_).trans hsender)
      have hload := h d i hi
      rw [load, Option.elim_some, ← hsender, List.getD_eq_getElem?_getD, getElem?_lengths, hl] at hload
      exact hload.symm
  exact hfold Direction.all f rfl

theorem queued_release (h : ∀ d i, ends.inbound.get d = some i → f.load (some i) = 0) :
    (f.release ends).queued = f.queued := congrArg List.sum (lengths_release h)

theorem size_release (h : ∀ d i, ends.inbound.get d = some i → f.load (some i) = 0) :
    (f.release ends).links.size = f.links.size := by
  have hlength := congrArg List.length (lengths_release h)
  rwa [lengths, lengths, List.length_map, List.length_map] at hlength

end Fabric
end DiffusionMesh

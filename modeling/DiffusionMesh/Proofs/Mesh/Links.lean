/-
# Links at their places

A poll works on copies of the links at a cell and puts them back; a cell that leaves gives up its
ends. Both touch the links of the cell alone: `getElem?_store` and `getElem?_release_outbound`,
`getElem?_release_inbound` say what stands at a place afterwards.
-/

import DiffusionMesh.Mesh.Fabric

namespace DiffusionMesh
namespace Fabric

variable {f : Fabric} {ends : Ends} {p : Ports} {n : Nat} {l : Link}

/-! ### Putting links back -/

theorem size_put (f : Fabric) (end? : Option Nat) (link : Option Link) :
    (f.put end? link).links.size = f.links.size := by
  unfold put
  split
  · exact Array.size_setIfInBounds
  · rfl

/-- A link that is put at a place stands there, and at no other. -/
theorem getElem?_put {end? : Option Nat} {link : Option Link} (hval : end? = some n → link = some l)
    (h : f.links[n]? = some l ∨ end? = some n ∧ n < f.links.size) :
    (f.put end? link).links[n]? = some l := by
  unfold put
  split
  · next i l' =>
    rw [Array.getElem?_setIfInBounds]
    by_cases hi : i = n
    · subst hi
      obtain rfl := Option.some.inj (hval rfl)
      have hlt : i < f.links.size := by
        rcases h with h | h
        · exact (Array.getElem?_eq_some_iff.1 h).1
        · exact h.2
      rw [if_pos rfl, if_pos hlt]
    · rw [if_neg hi]
      rcases h with h | h
      · exact h
      · exact absurd (Option.some.inj h.1) hi
  · next hnot =>
    rcases h with h | h
    · exact h
    · exact absurd (hval h.1) fun hl => hnot _ _ h.1 hl

theorem getElem?_foldl_put (hout : ∀ d, ends.outbound.get d = some n → p.outbound.get d = some l)
    (hin : ∀ d, ends.inbound.get d = some n → p.inbound.get d = some l) (ds : List Direction)
    (h : f.links[n]? = some l ∨ n < f.links.size ∧
      ∃ d ∈ ds, ends.outbound.get d = some n ∨ ends.inbound.get d = some n) :
    (ds.foldl (fun f d => (f.put (ends.outbound.get d) (p.outbound.get d)).put
      (ends.inbound.get d) (p.inbound.get d)) f).links[n]? = some l := by
  induction ds generalizing f with
  | nil => simpa using h
  | cons d ds ih =>
    refine ih ?_
    by_cases hd : f.links[n]? = some l ∨ n < f.links.size ∧
      (ends.outbound.get d = some n ∨ ends.inbound.get d = some n)
    · left
      refine getElem?_put (hin d) ?_
      rcases hd with hd | ⟨hlt, hd | hd⟩
      · exact .inl (getElem?_put (hout d) (.inl hd))
      · exact .inl (getElem?_put (hout d) (.inr ⟨hd, hlt⟩))
      · exact .inr ⟨hd, by rw [size_put]; exact hlt⟩
    · right
      simp only [not_or, not_and] at hd
      rcases h with h | ⟨hlt, e, he, hn⟩
      · exact absurd h hd.1
      · refine ⟨by rw [size_put, size_put]; exact hlt, e, ?_, hn⟩
        rcases List.mem_cons.1 he with rfl | he
        · rcases hn with hn | hn
          · exact absurd hn (hd.2 hlt).1
          · exact absurd hn (hd.2 hlt).2
        · exact he

/-- **What stands at a place after a cell's links have been put back.** -/
theorem getElem?_store (hout : ∀ d, ends.outbound.get d = some n → p.outbound.get d = some l)
    (hin : ∀ d, ends.inbound.get d = some n → p.inbound.get d = some l)
    (h : f.links[n]? = some l ∨ n < f.links.size ∧
      ∃ d, ends.outbound.get d = some n ∨ ends.inbound.get d = some n) :
    (f.store ends p).links[n]? = some l :=
  getElem?_foldl_put hout hin Direction.all
    (h.imp_right fun ⟨hlt, d, hd⟩ => ⟨hlt, d, Direction.mem_all d, hd⟩)

theorem put_self (f : Fabric) (end? : Option Nat) : f.put end? (end?.bind (f.links[·]?)) = f := by
  cases end? with
  | none => rfl
  | some i =>
    rw [Option.bind_some]
    cases h : f.links[i]? with
    | none => rfl
    | some l =>
      have hset : f.links.setIfInBounds i l = f.links := by
        apply Array.ext_getElem?
        intro k
        rw [Array.getElem?_setIfInBounds]
        split
        · next hk =>
          subst hk
          rw [h, if_pos (Array.getElem?_eq_some_iff.1 h).1]
        · rfl
      simp only [put, hset]

/-- Links that are put back as they were change nothing. -/
theorem store_ports (f : Fabric) (ends : Ends) : f.store ends (f.ports ends) = f := by
  have hd : ∀ d, (f.put (ends.outbound.get d) ((f.ports ends).outbound.get d)).put
      (ends.inbound.get d) ((f.ports ends).inbound.get d) = f := by
    intro d
    rw [ports, Compass.get_map, Compass.get_map, put_self, put_self]
  have hfold : ∀ ds : List Direction, ds.foldl (fun g d => (g.put (ends.outbound.get d)
      ((f.ports ends).outbound.get d)).put (ends.inbound.get d)
      ((f.ports ends).inbound.get d)) f = f := by
    intro ds
    induction ds with
    | nil => rfl
    | cons d ds ih => rw [List.foldl_cons, hd, ih]
  exact hfold Direction.all

/-! ### Giving up ends -/

theorem getElem?_modify (f : Fabric) (link : Option Nat) (change : Link → Link) :
    (f.modify link change).links[n]? =
      if link = some n then (f.links[n]?).map change else f.links[n]? := by
  unfold modify
  cases link with
  | none => rw [if_neg nofun]
  | some i =>
    rw [Array.getElem?_modify]
    by_cases hi : i = n
    · rw [if_pos hi, if_pos (congrArg some hi)]
    · rw [if_neg hi, if_neg fun h => hi (Option.some.inj h)]

/-- The ends given up by one direction after the other change a link if one of them is at it. -/
theorem getElem?_foldl_close {change : Link → Link} {held : Direction → Option Nat}
    (hstep : ∀ (f : Fabric) d, ((f.closeSender (ends.outbound.get d)).closeReceiver
      (ends.inbound.get d)).links[n]? =
        if held d = some n then (f.links[n]?).map change else f.links[n]?)
    (hagain : ∀ l, change (change l) = change l) (ds : List Direction) (h : f.links[n]? = some l) :
    (ds.foldl (fun f d => (f.closeSender (ends.outbound.get d)).closeReceiver
      (ends.inbound.get d)) f).links[n]? =
      some (if ∃ d ∈ ds, held d = some n then change l else l) := by
  induction ds generalizing f l with
  | nil => simpa using h
  | cons d ds ih =>
    have hd := hstep f d
    rw [h] at hd
    rw [List.foldl_cons]
    simp only [List.mem_cons, exists_eq_or_imp]
    by_cases hn : held d = some n
    · rw [if_pos hn] at hd
      rw [ih hd, hagain, ite_self, if_pos (Or.inl hn)]
    · rw [if_neg hn] at hd
      simp only [ih hd, hn, false_or]

/-- Where a cell does not receive, it can only give up a sender. -/
theorem getElem?_close_of_inbound_ne (hin : ∀ d, ends.inbound.get d ≠ some n) (f : Fabric)
    (d : Direction) :
    ((f.closeSender (ends.outbound.get d)).closeReceiver (ends.inbound.get d)).links[n]? =
      if ends.outbound.get d = some n then (f.links[n]?).map Link.closeSender
      else f.links[n]? := by
  rw [closeReceiver, getElem?_modify, if_neg (hin d), closeSender, getElem?_modify]

/-- Where a cell does not send, it can only give up a receiver. -/
theorem getElem?_close_of_outbound_ne (hout : ∀ d, ends.outbound.get d ≠ some n) (f : Fabric)
    (d : Direction) :
    ((f.closeSender (ends.outbound.get d)).closeReceiver (ends.inbound.get d)).links[n]? =
      if ends.inbound.get d = some n then (f.links[n]?).map Link.closeReceiver
      else f.links[n]? := by
  rw [closeReceiver, getElem?_modify, closeSender, getElem?_modify, if_neg (hout d)]

/-- **A link that a cell sends on loses its sender with the cell.** -/
theorem getElem?_release_outbound (hin : ∀ d, ends.inbound.get d ≠ some n) {d : Direction}
    (hd : ends.outbound.get d = some n) (h : f.links[n]? = some l) :
    (f.release ends).links[n]? = some l.closeSender := by
  rw [release, getElem?_foldl_close (getElem?_close_of_inbound_ne hin) (fun _ => rfl) _ h,
    if_pos ⟨d, Direction.mem_all d, hd⟩]

/-- **A link that a cell receives on loses its receiver with the cell.** -/
theorem getElem?_release_inbound (hout : ∀ d, ends.outbound.get d ≠ some n) {d : Direction}
    (hd : ends.inbound.get d = some n) (h : f.links[n]? = some l) :
    (f.release ends).links[n]? = some l.closeReceiver := by
  rw [release, getElem?_foldl_close (getElem?_close_of_outbound_ne hout) (fun _ => rfl) _ h,
    if_pos ⟨d, Direction.mem_all d, hd⟩]

/-- All other links stay as they are. -/
theorem getElem?_release_of_ne (hout : ∀ d, ends.outbound.get d ≠ some n)
    (hin : ∀ d, ends.inbound.get d ≠ some n) (h : f.links[n]? = some l) :
    (f.release ends).links[n]? = some l := by
  rw [release, getElem?_foldl_close (getElem?_close_of_inbound_ne hin) (fun _ => rfl) _ h,
    if_neg fun ⟨d, _, hd⟩ => hout d hd]

theorem stats_release (f : Fabric) (ends : Ends) : (f.release ends).stats = f.stats := by
  have hmodify : ∀ (f : Fabric) (link : Option Nat) (change : Link → Link),
      (f.modify link change).stats = f.stats := by
    intro f link change
    cases link <;> rfl
  have hfold : ∀ (ds : List Direction) (f : Fabric), (ds.foldl (fun f d =>
      (f.closeSender (ends.outbound.get d)).closeReceiver (ends.inbound.get d)) f).stats =
      f.stats := by
    intro ds
    induction ds with
    | nil => exact fun f => rfl
    | cons d ds ih =>
      intro f
      rw [List.foldl_cons, ih, closeReceiver, hmodify, closeSender, hmodify]
  exact hfold Direction.all f

end Fabric
end DiffusionMesh

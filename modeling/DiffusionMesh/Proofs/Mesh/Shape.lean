/-
# The shape of a cell

A cell of edge length `S` keeps two tiles of size `S` and eight edges of `S` values. Whatever frames
arrive, in whatever steps, that does not change, and the incoming edges on the outside of the mesh stay
at the temperature beyond that side:

| what replaces an incoming edge | why it fits |
| --- | --- |
| the edge of a frame | decoded for `S` values, and taken from a link that the cell listens on |
| an edge kept from an earlier step | it came from such a frame |

A cell listens on the links that the wiring gave it, and those lead to its neighbors. So no edge on the
outside is ever replaced, and every index of an update is in range.

Main statements: `Session.Step.fitted`, one act, `Cell.Fitted.step`, a step of a cell, and
`Cell.shape_kept`.
-/

import DiffusionMesh.Proofs.Mesh.Atomicity
import DiffusionMesh.Proofs.Mesh.Ports
import DiffusionMesh.Proofs.Tile.Writes

namespace DiffusionMesh

variable {S : Nat} {neighbors : Compass (Option CellId)} {border : Border}

/-- Incoming edges of `S` values each; those without a neighbor hold the temperature beyond that
side. -/
structure FittingEdges (S : Nat) (neighbors : Compass (Option CellId)) (border : Border)
    (incoming : Compass Edge) : Prop where
  size : ∀ d, (incoming.get d).size = S
  outside : ∀ d, neighbors.get d = none → incoming.get d = .filled S (border.get d)

/-- Tiles of size `S` and edges of `S` values each. -/
structure LocalState.Shaped (S : Nat) (neighbors : Compass (Option CellId)) (border : Border)
    (s : LocalState) : Prop where
  current : s.current.size = S
  next : s.next.size = S
  incoming : FittingEdges S neighbors border s.incoming
  outgoing : ∀ d, (s.outgoing.get d).size = S

/-- An exchange that listens to neighbors only, and keeps edges of `S` values from neighbors only. -/
structure Exchange.Fitted (S : Nat) (neighbors : Compass (Option CellId)) (x : Exchange) : Prop where
  edgeLength : x.edgeLength = S
  listening : ∀ d, x.listening.get d = true → neighbors.get d ≠ none
  lookahead : ∀ d m, x.lookahead.get d = some m → neighbors.get d ≠ none ∧ m.edge.size = S

/-! ### Edges that are replaced -/

/-- An edge from a neighbor can be replaced. -/
theorem FittingEdges.set {incoming : Compass Edge} (h : FittingEdges S neighbors border incoming)
    {d : Direction} {e : Edge} (hd : neighbors.get d ≠ none) (he : e.size = S) :
    FittingEdges S neighbors border (incoming.set d e) where
  size d' := by
    rw [Compass.get_set]
    split
    · exact he
    · exact h.size d'
  outside d' hnone := by
    rw [Compass.get_set]
    split
    · next heq => exact absurd hnone (heq ▸ hd)
    · exact h.outside d' hnone

/-- A round starts with edges that fit, since those that were kept do. -/
theorem Exchange.Fitted.start {x : Exchange} {incoming : Compass Edge} (h : x.Fitted S neighbors)
    (hin : FittingEdges S neighbors border incoming) (iteration : UInt32)
    (outgoing : Compass Edge) :
    (x.start iteration outgoing incoming).1.Fitted S neighbors ∧
      FittingEdges S neighbors border (x.start iteration outgoing incoming).2.2.1 := by
  have hkept : ∀ {p d e}, x.kept p d = some e → neighbors.get d ≠ none ∧ e.size = S := by
    intro p d e he
    obtain ⟨m, hm, hedge⟩ := Option.bind_eq_some_iff.1 he
    obtain ⟨hd, hsize⟩ := h.lookahead d m hm
    split at hedge
    · exact ⟨hd, Option.some.inj hedge ▸ hsize⟩
    · cases hedge
  refine ⟨⟨h.edgeLength, h.listening, fun d m hm => ?_⟩, ⟨fun d => ?_, fun d hnone => ?_⟩⟩
  · simp only [Exchange.start, Compass.get_ofFn] at hm
    split at hm
    · cases hm
    · exact h.lookahead d m hm
  · simp only [Exchange.start, Compass.get_ofFn]
    cases he : x.kept (.ofIteration iteration) d with
    | none => exact hin.size d
    | some e => exact (hkept he).2
  · simp only [Exchange.start, Compass.get_ofFn]
    cases he : x.kept (.ofIteration iteration) d with
    | none => exact hin.outside d hnone
    | some e => exact absurd hnone (hkept he).1

namespace Session

/-- A session of an exchange that listens to neighbors only, with edges that fit. -/
structure Fitted (S : Nat) (neighbors : Compass (Option CellId)) (border : Border) (s : Session) :
    Prop where
  exchange : s.exchange.Fitted S neighbors
  incoming : FittingEdges S neighbors border s.incoming

variable {s next : Session} {act : Act}

/-- **An act keeps the edges of a session fitting.** -/
theorem Step.fitted (h : s.Step act next) (hs : s.Fitted S neighbors border) :
    next.Fitted S neighbors border := by
  obtain ⟨⟨hlength, hlistening, hlookahead⟩, hincoming⟩ := hs
  cases h with
  | sent _ _ _ => exact ⟨⟨hlength, hlistening, hlookahead⟩, hincoming⟩
  | applied harrives hreads _ _ =>
    have hsize := (EdgeMessage.size_of_decode hreads.decode).trans hlength
    exact ⟨⟨hlength, hlistening, hlookahead⟩,
      hincoming.set (hlistening _ harrives.listening) hsize⟩
  | @parked d frame rest message harrives hreads _ _ =>
    have hsize := (EdgeMessage.size_of_decode hreads.decode).trans hlength
    refine ⟨⟨hlength, hlistening, fun d' m hm => ?_⟩, hincoming⟩
    change (s.exchange.lookahead.set d (some message)).get d' = some m at hm
    rw [Compass.get_set] at hm
    split at hm
    · next heq =>
      obtain rfl := Option.some.inj hm
      exact ⟨heq ▸ hlistening d harrives.listening, hsize⟩
    · exact hlookahead d' m hm
  | rejected _ => exact ⟨⟨hlength, hlistening, hlookahead⟩, hincoming⟩
  | @hungUp d _ =>
    refine ⟨⟨hlength, fun d' hd' => ?_, hlookahead⟩, hincoming⟩
    change (s.exchange.listening.set d false).get d' = true at hd'
    rw [Compass.get_set] at hd'
    split at hd'
    · cases hd'
    · exact hlistening d' hd'

/-- A poll keeps the edges of a session fitting. -/
theorem Fitted.poll (hs : s.Fitted S neighbors border) :
    s.poll.session.Fitted S neighbors border :=
  poll_induction (motive := fun _ s => s.Fitted S neighbors border) s hs
    fun hfitted hstep => hstep.fitted hfitted

end Session

/-! ### Tiles and cells -/

namespace LocalState.Shaped

variable {s : LocalState}

theorem initial (S : Nat) (neighbors : Compass (Option CellId)) (border : Border) :
    (LocalState.initial S neighbors border).Shaped S neighbors border where
  current := rfl
  next := rfl
  incoming := by
    refine ⟨fun d => ?_, fun d hnone => ?_⟩
    · rw [LocalState.initial, Compass.get_ofFn, Edge.size_filled]
    · rw [LocalState.initial, Compass.get_ofFn, hnone]
      rfl
  outgoing d := by
    rw [LocalState.initial, Compass.get_const, Edge.size_filled]

theorem fits (h : s.Shaped S neighbors border) : s.Fits where
  next := h.next.trans h.current.symm
  incoming d := (h.incoming.size d).trans h.current.symm
  outgoing d := (h.outgoing d).trans h.current.symm

theorem update (h : s.Shaped S neighbors border) : s.update.Shaped S neighbors border := by
  unfold LocalState.update
  split
  · exact h
  · refine ⟨h.current, h.current, h.incoming, fun d => ?_⟩
    rw [Compass.get_ofFn, size_borderOf]
    exact h.current

theorem swap (h : s.Shaped S neighbors border) : s.swap.Shaped S neighbors border :=
  ⟨h.next, h.current, h.incoming, h.outgoing⟩

theorem take (h : s.Shaped S neighbors border) {incoming : Compass Edge}
    (hin : FittingEdges S neighbors border incoming) :
    LocalState.Shaped S neighbors border { s with incoming := incoming } :=
  ⟨h.current, h.next, hin, h.outgoing⟩

end LocalState.Shaped

/-- Only the cells of a mesh have a table of neighbors. -/
theorem Geometry.lt_of_neighbors {g : Geometry} {id : CellId}
    (h : g.neighbors id = .ok neighbors) :
    id.index.toNat < g.cells.toNat ∧ (⟨UInt32.ofNat id.index.toNat⟩ : CellId) = id := by
  refine ⟨?_, by rw [UInt32.ofNat_toNat]⟩
  unfold Geometry.neighbors Geometry.position at h
  split at h
  · next hlt => exact UInt32.lt_iff_toNat_lt.1 hlt
  · cases h

namespace Cell

/-- A cell whose tiles and edges have the shape for `S`, and which listens to neighbors only. -/
structure Fitted (S : Nat) (neighbors : Compass (Option CellId)) (border : Border) (c : Cell) :
    Prop where
  state : c.state.Shaped S neighbors border
  exchange : c.peer.exchange.Fitted S neighbors

variable {c : Cell} {f : Fabric}

/-- A step that is resumed keeps the shape, also when it swaps the tiles. -/
theorem Fitted.resume (h : c.Fitted S neighbors border) (f : Fabric) :
    (c.resume f).cell.Fitted S neighbors border := by
  cases hr : c.peer.round with
  | none =>
    rw [resume_of_idle hr]
    exact h
  | some r =>
    have hsession : (c.peer.session r c.state.incoming f).Fitted S neighbors border :=
      ⟨h.exchange, h.state.incoming⟩
    have hpolled := hsession.poll
    have htaken := h.state.take hpolled.incoming
    rw [Cell.resume, c.peer.poll_eq hr]
    refine ⟨?_, hpolled.exchange⟩
    dsimp only
    split
    · exact htaken.swap
    · exact htaken

/-- A step that begins keeps the shape. -/
theorem Fitted.begin (h : c.Fitted S neighbors border) {t : UInt32} {begun : Cell}
    {entries : List Entry} (hbegin : c.begin t = .ok (begun, entries)) :
    begun.Fitted S neighbors border := by
  obtain ⟨rfl, -⟩ := of_begin hbegin
  obtain ⟨hexchange, hincoming⟩ :=
    h.exchange.start h.state.update.incoming t c.state.update.outgoing
  exact ⟨h.state.update.take hincoming, hexchange⟩

theorem Fitted.poll (h : c.Fitted S neighbors border) (t : UInt32) (f : Fabric) :
    (c.poll t f).cell.Fitted S neighbors border := by
  cases hr : c.peer.round with
  | some r =>
    rw [poll_of_running hr]
    exact h.resume f
  | none =>
    cases hbegin : c.begin t with
    | error cause =>
      rw [poll_of_refused hr hbegin]
      exact h
    | ok begun =>
      rw [poll_of_begun hr hbegin]
      exact (h.begin hbegin).resume f

/-- **A step keeps the shape**, at each of its polls and whether it finishes, fails or is given up. -/
theorem Fitted.step (h : c.Fitted S neighbors border) (t : UInt32) (found : List Fabric) :
    (c.step t found).cell.Fitted S neighbors border ∧
      ∀ p ∈ (c.step t found).polls, p.2.cell.Fitted S neighbors border := by
  induction found generalizing c with
  | nil => exact ⟨⟨h.state, h.exchange⟩, fun p hp => absurd hp List.not_mem_nil⟩
  | cons f rest ih =>
    have hpoll := h.poll t f
    rw [Cell.step]
    dsimp only
    split
    · obtain ⟨hcell, hpolls⟩ := ih hpoll
      refine ⟨hcell, fun p hp => ?_⟩
      rcases List.mem_cons.1 hp with rfl | hp
      · exact hpoll
      · exact hpolls p hp
    · refine ⟨hpoll, fun p hp => ?_⟩
      rw [List.mem_singleton.1 hp]
      exact hpoll

/-- **Any number of steps keeps the shape.** -/
theorem Fitted.afterSteps (h : c.Fitted S neighbors border) (calls : List StepCall) :
    (c.afterSteps calls).Fitted S neighbors border := by
  induction calls generalizing c with
  | nil => exact h
  | cons call rest ih => exact ih (h.step call.iteration call.found).1

/-- A cell that has done nothing yet has the shape: it listens where it was given a link, which is
where it has a neighbor. -/
theorem fitted_outsetCell {g : Geometry} {ends : Nat → Ends} (hwired : Wired g.mate ends) (k S : Nat)
    (border : Border) : (g.outsetCell S border ends k).Fitted S (g.neighborIds k) border where
  state := .initial S (g.neighborIds k) border
  exchange := by
    refine ⟨rfl, fun d hd => ?_, fun d m hm => ?_⟩
    · change ((ends k).inbound.map Option.isSome).get d = true at hd
      rw [Compass.get_map] at hd
      obtain ⟨j, hj⟩ := (hwired.inbound_isSome_iff Geometry.mate_symm).1 hd
      rw [Geometry.neighborIds, Compass.get_ofFn, hj]
      exact Option.some_ne_none _
    · change (Compass.const none).get d = some m at hm
      rw [Compass.get_const] at hm
      cases hm

/-- **Whatever arrives, a cell keeps its shape.** In a mesh that has been wired, for every tile size
and border, after any steps that a cell has been asked for, with any iteration numbers and whatever its
polls have found in the links: before a step, after it and after each of its polls, the tiles are `S`
by `S`, all edges have `S` values, and the incoming edges without a neighbor hold the temperature beyond
that side. So no index of an update is out of range. -/
theorem shape_kept {g : Geometry} {capacity : UInt64} {wired : Fabric × Array Ends}
    (hwire : (Fabric.ofCapacity capacity).wire g = .ok wired) {id : CellId}
    {neighbors : Compass (Option CellId)} (hneighbors : g.neighbors id = .ok neighbors) (S : Nat)
    (border : Border) :
    ∃ start, create g id (wired.2.getD id.index.toNat .none) S border = .ok start ∧
      ∀ (history : List StepCall) (call : StepCall),
        let x := start.afterSteps history
        let q := x.step call.iteration call.found
        ∀ c, c = x ∨ c = q.cell ∨ (∃ p ∈ q.polls, c = p.2.cell) →
          c.state.Shaped S neighbors border ∧ c.state.update? = some c.state.update := by
  obtain ⟨hlt, hid⟩ := Geometry.lt_of_neighbors hneighbors
  have hwiring : Wiring g.cells.toNat capacity g.joins wired := by
    rw [Fabric.wire_eq] at hwire
    exact .of_joinAll g.proper_joins hwire
  have hwired := hwiring.wired
  rw [g.mates_joins] at hwired
  have hcreate := Geometry.create_eq hwired hlt S border
  rw [hid] at hcreate
  have hstart := fitted_outsetCell hwired id.index.toNat S border
  have htable : g.neighborIds id.index.toNat = neighbors := by
    rw [← hid, Geometry.neighbors_eq hlt] at hneighbors
    exact Except.ok.inj hneighbors
  rw [htable] at hstart
  refine ⟨_, hcreate, ?_⟩
  intro history call x q c hc
  have hx : x.Fitted S neighbors border := hstart.afterSteps history
  obtain ⟨hq, hpolls⟩ := hx.step call.iteration call.found
  have hfitted : c.Fitted S neighbors border := by
    rcases hc with rfl | rfl | ⟨p, hp, rfl⟩
    · exact hx
    · exact hq
    · exact hpolls p hp
  exact ⟨hfitted.state, LocalState.update?_eq hfitted.state.fits⟩

/-- The last cell of a square has nobody to the south. Whatever steps are asked of it, its southern
edge stays at 40 degrees. -/
theorem shape_kept_square :
    let g : Geometry := ⟨4, 1, rfl⟩
    ∃ wired, (Fabric.ofCapacity 1).wire g = .ok wired ∧ ∃ start,
      create g ⟨3⟩ (wired.2.getD 3 .none) 2 .standard = .ok start ∧
        ∀ (history : List StepCall) (call : StepCall),
        let q := (start.afterSteps history).step call.iteration call.found
        q.cell.state.incoming.get .south = .filled 2 .cold ∧
          q.cell.state.update? = some q.cell.state.update := by
  intro g
  have hneighbors : g.neighbors ⟨3⟩ = .ok ⟨some ⟨1⟩, none, none, some ⟨2⟩⟩ := by decide
  have hcap : ¬ Fabric.greatestCapacity < (1 : UInt64) := by decide
  obtain ⟨wired, hjoins⟩ := Wiring.exists_joinAll hcap g.proper_joins
  have hwire : (Fabric.ofCapacity 1).wire g = .ok wired := by
    rw [Fabric.wire_eq, hjoins]
  obtain ⟨start, hstart, hkept⟩ := shape_kept hwire hneighbors 2 .standard
  refine ⟨wired, hwire, start, hstart, ?_⟩
  intro history call q
  obtain ⟨hshaped, hupdate⟩ := hkept history call q.cell (.inr (.inl rfl))
  exact ⟨hshaped.incoming.outside .south rfl, hupdate⟩

end Cell
end DiffusionMesh

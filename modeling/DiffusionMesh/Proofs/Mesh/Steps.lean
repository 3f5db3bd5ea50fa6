/-
# The steps of a cell on the field

A cell is on the field after `t` steps when its tile is its part of the field of `t` and, once a
step is in progress, the tile under construction is that of `t + 1`. In a mesh in concord, a poll of
a cell keeps it on the field, whether the cell begins a step, resumes one or completes it.

```
   current = tile t ──update──▶ next = tile (t + 1) ──exchange──▶ swap ──▶ current = tile (t + 1)
```

Main statements: `Cell.OnField.poll`, one step, and `Worker.exists_advanced`, as many steps as a
worker takes in one poll.
-/

import DiffusionMesh.Mesh.Run
import DiffusionMesh.Proofs.Mesh.Blueprint
import DiffusionMesh.Proofs.Mesh.Headway

namespace DiffusionMesh

/-- Whether an entry records that a frame was handed to a link or taken from one. -/
def Entry.moves : Entry → Bool
  | .act _ _ a => a.moves
  | _ => false

theorem Entry.countP_ofActs (cell : CellId) (iteration : UInt32) (acts : List Act) :
    (ofActs cell iteration acts).countP moves = acts.countP Act.moves := by
  rw [ofActs, List.countP_map]
  rfl

/-- The number of frames that entries record as sent or taken. -/
def Entry.moved (entries : Array Entry) : Nat := entries.toList.countP moves

theorem Entry.moved_appendList (entries : Array Entry) (more : List Entry) :
    moved (entries.appendList more) = moved entries + more.countP moves := by
  rw [moved, Array.appendList_eq_append, Array.toList_appendList, List.countP_append]
  rfl

/-- Starting a round moves no frame. -/
theorem Peer.countP_start (p : Peer) (iteration : UInt32) (outgoing incoming : Compass Edge) :
    (p.start iteration outgoing incoming).2.2.countP Act.moves = 0 := by
  rw [List.countP_eq_zero]
  intro act hact
  obtain ⟨d, -, rfl⟩ := List.mem_map.1 hact
  exact Bool.false_ne_true

namespace Cell

/-- The station of a cell that has completed `t` iterations. -/
def station (c : Cell) (t : Nat) : Station := ⟨c.peer, c.state.incoming, t⟩

/-- A cell whose tile is its part of the field of `t`. -/
structure OnField (g : Geometry) (S : Nat) (b : Border) (k t : Nat) (c : Cell) : Prop where
  position : c.position = ⟨UInt32.ofNat (g.column k), UInt32.ofNat (g.row k)⟩
  current : c.state.current = g.tile S b k t
  size_next : c.state.next.size = S
  size_outgoing : ∀ d, (c.state.outgoing.get d).size = S
  /-- In the midst of a step, the next tile stands ready and something is left to be done. -/
  underway : ∀ r, c.peer.round = some r → c.state.next = g.tile S b k (t + 1) ∧
    ¬ (c.peer.exchange.unsent = 0 ∧ r.receives = 0)

/-- What a poll of a cell in the midst of iteration `t` comes to: it waits or has completed the
iteration. Either way it has completed `n` now. -/
structure Stepped (g : Geometry) (S : Nat) (b : Border) (rounds : Nat) (ends : Nat → Ends)
    (f : Fabric) (crew : Crew) (k t : Nat) (x : Station) (p : Polled) (n : Nat) : Prop where
  concord : Concord (g.plan S b rounds) ends p.fabric
    (Function.update crew k (some (p.cell.station n)))
  onField : p.cell.OnField g S b k n
  toCome : (p.cell.station n).toCome rounds + p.entries.countP Entry.moves = x.toCome rounds
  counted : p.fabric.stats.sent + p.fabric.stats.received =
    f.stats.sent + f.stats.received + p.entries.countP Entry.moves
  verdict : (p.verdict = .waiting ∧ n = t ∧ p.cell.peer.round.isSome = true) ∨
    ((∃ early, p.verdict = .finished early) ∧ n = t + 1 ∧ p.cell.peer.round = none)

variable {g : Geometry} {S : Nat} {b : Border} {rounds : Nat} {ends : Nat → Ends} {f : Fabric}
  {crew : Crew} {k t : Nat} {c : Cell}

/-- Resuming a step keeps a cell on the field. -/
theorem stepped_resume {x : Station} {n : Nat} (hx : x.completed = t)
    (hposition : c.position = ⟨UInt32.ofNat (g.column k), UInt32.ofNat (g.row k)⟩)
    (hcurrent : c.state.current = g.tile S b k t) (hnext : c.state.next = g.tile S b k (t + 1))
    (hout : ∀ d, (c.state.outgoing.get d).size = S)
    (h : Concord.Outcome (g.plan S b rounds) ends f crew k x (c.peer.poll c.state.incoming f) n) :
    Stepped g S b rounds ends f crew k t x (c.resume f) n := by
  have hcount : (c.resume f).entries.countP Entry.moves =
      (c.peer.poll c.state.incoming f).acts.countP Act.moves := Entry.countP_ofActs _ _ _
  obtain ⟨hconcord, htoCome, hcounted, hverdict⟩ := h
  rw [← hcount] at htoCome hcounted
  rcases hverdict with ⟨hwaiting, hn, r, hr, hleft⟩ | ⟨⟨report, hfinished⟩, hn, hidle⟩
  · rw [hx] at hn
    subst hn
    have hcell : (c.resume f).cell = { c with
        state := { c.state with incoming := (c.peer.poll c.state.incoming f).incoming }
        peer := (c.peer.poll c.state.incoming f).peer } := by
      simp only [resume, hwaiting]
    refine ⟨?_, ?_, ?_, hcounted, .inl ⟨?_, rfl, ?_⟩⟩
    · rw [hcell]
      exact hconcord
    · rw [hcell]
      refine ⟨hposition, hcurrent, congrArg Tile.size hnext, hout, fun r' hr' => ⟨hnext, ?_⟩⟩
      obtain rfl := Option.some.inj (hr.symm.trans hr')
      exact hleft
    · rw [hcell]
      exact htoCome
    · simp only [resume, hwaiting]
    · rw [hcell, hr]
      rfl
  · rw [hx] at hn
    subst hn
    have hcell : (c.resume f).cell = { c with
        state := LocalState.swap
          { c.state with incoming := (c.peer.poll c.state.incoming f).incoming }
        peer := (c.peer.poll c.state.incoming f).peer } := by
      simp only [resume, hfinished]
    refine ⟨?_, ?_, ?_, hcounted, .inr ⟨⟨report.early, ?_⟩, rfl, ?_⟩⟩
    · rw [hcell]
      exact hconcord
    · rw [hcell]
      exact ⟨hposition, hnext, congrArg Tile.size hcurrent, hout, fun r' hr' =>
        nomatch hidle.symm.trans hr'⟩
    · rw [hcell]
      exact htoCome
    · simp only [resume, hfinished]
    · rw [hcell]
      exact hidle

/-- The cell with its step of iteration `t` begun as planned. -/
def begunBy (g : Geometry) (S : Nat) (b : Border) (rounds k t : Nat) (c : Cell) : Cell :=
  let begun := (c.station t).begunBy (g.plan S b rounds) k
  { c with
    state := { c.state with
      next := g.tile S b k (t + 1)
      outgoing := (g.plan S b rounds).edges k t
      incoming := begun.incoming }
    peer := begun.peer }

/-- **A step begins as planned**: the cell updates its tile and starts the exchange of the new
borders. -/
theorem OnField.begin_eq (h : c.OnField g S b k t) (hk : k < g.cells.toNat)
    (hsound : (c.station t).Sound (g.plan S b rounds) k) (hidle : c.peer.round = none) :
    ∃ acts, acts.countP Act.moves = 0 ∧ c.begin (UInt32.ofNat t) =
      .ok (c.begunBy g S b rounds k t, Entry.ofActs c.id (UInt32.ofNat t) acts) := by
  have habuts : Abuts S (g.span * S) b t (g.row k * S) (g.column k * S) c.state.incoming :=
    Geometry.abuts_heard hk fun d => by
      have hincoming := hsound.incoming d
      rwa [Station.appliedOn_of_idle hidle] at hincoming
  have hupdate : c.state.update = { c.state with
      next := g.tile S b k (t + 1)
      outgoing := (g.plan S b rounds).edges k t } :=
    update_eq h.current habuts (Geometry.row_mul_le S hk) (g.column_mul_le S k) h.size_next
      h.size_outgoing
  have hdrained : c.peer.exchange.ensureDrained = .ok () := by
    rw [Exchange.ensureDrained, if_pos (show c.peer.exchange.unsent = 0 from hsound.idle hidle)]
  refine ⟨_, c.peer.countP_start (UInt32.ofNat t) ((g.plan S b rounds).edges k t) c.state.incoming,
    ?_⟩
  rw [begin, hdrained, hupdate]
  rfl

/-- **A poll takes a cell on along the field.** -/
theorem OnField.poll (h : c.OnField g S b k t) (hk : k < g.cells.toNat)
    (hconcord : Concord (g.plan S b rounds) ends f crew) (hcrew : crew k = some (c.station t))
    (hlt : t < rounds) : ∃ n, Stepped g S b rounds ends f crew k t (c.station t)
      (c.poll (UInt32.ofNat t) f) n := by
  cases hr : c.peer.round with
  | some r =>
    obtain ⟨n, houtcome⟩ := hconcord.polled hcrew hr
    have hstepped : Stepped g S b rounds ends f crew k t (c.station t) (c.resume f) n :=
      stepped_resume rfl h.position h.current (h.underway r hr).1 h.size_outgoing houtcome
    simp only [Cell.poll, hr]
    exact ⟨n, hstepped⟩
  | none =>
    obtain ⟨n, houtcome⟩ := hconcord.polled_begunBy hcrew hr hlt
    obtain ⟨acts, hacts, hbegin⟩ := h.begin_eq hk (hconcord.station hcrew).2 hr
    have hout : ∀ d, ((c.begunBy g S b rounds k t).state.outgoing.get d).size = S :=
      (g.plan S b rounds).size_edges k t
    have hstepped : Stepped g S b rounds ends f crew k t (c.station t)
        ((c.begunBy g S b rounds k t).resume f) n :=
      stepped_resume rfl h.position h.current rfl hout houtcome
    have hcount : ∀ entries : List Entry, (Entry.ofActs c.id (UInt32.ofNat t) acts ++
        entries).countP Entry.moves = entries.countP Entry.moves := by
      intro entries
      rw [List.countP_append, Entry.countP_ofActs, hacts, Nat.zero_add]
    simp only [Cell.poll, hr, hbegin]
    refine ⟨n, hstepped.concord, hstepped.onField, ?_, ?_, hstepped.verdict⟩
    · rw [hcount]
      exact hstepped.toCome
    · rw [hcount]
      exact hstepped.counted

end Cell

/-! ### As far as a worker gets -/

namespace Worker

/-- What a worker records before it goes on: that it starts, the first time. -/
def opening (w : Worker) : Array Entry :=
  if w.started then #[]
  else #[.started w.cell.id w.cell.position w.cell.peer.exchange.neighborCount]

theorem poll_eq (w : Worker) (f : Fabric) :
    w.poll f = advance w.iterations w.left w.cell w.early f w.opening := rfl

theorem moved_opening (w : Worker) : Entry.moved w.opening = 0 := by
  unfold opening
  split <;> rfl

/-- What a poll of a worker comes to, from the iteration `t` of its cell on: it has completed `n`
iterations now, and waits unless these are all. -/
structure Advanced (g : Geometry) (S : Nat) (b : Border) (N : UInt32) (ends : Nat → Ends)
    (f : Fabric) (crew : Crew) (k : Nat) (x : Station) (before : Nat) (p : Polled) (n : Nat) :
    Prop where
  concord : Concord (g.plan S b N.toNat) ends p.fabric
    (Function.update crew k (some (p.worker.cell.station n)))
  onField : p.worker.cell.OnField g S b k n
  iterations : p.worker.iterations = N
  left : n + p.worker.left = N.toNat
  toCome : (p.worker.cell.station n).toCome N.toNat + Entry.moved p.entries =
    x.toCome N.toNat + before
  counted : p.fabric.stats.sent + p.fabric.stats.received + before =
    f.stats.sent + f.stats.received + Entry.moved p.entries
  verdict : (p.verdict = .waiting ∧ n < N.toNat ∧ p.worker.cell.peer.round.isSome = true) ∨
    (p.verdict = .finished () ∧ n = N.toNat ∧ p.worker.cell.peer.round = none)

variable {g : Geometry} {S : Nat} {b : Border} {N : UInt32} {ends : Nat → Ends} {k : Nat}

/-- The iteration that a worker with so many left is in. -/
theorem iteration_eq {t left : Nat} (h : t + left = N.toNat) :
    N - UInt32.ofNat left = UInt32.ofNat t := by
  have hsum : N = UInt32.ofNat t + UInt32.ofNat left := by
    rw [← UInt32.ofNat_add, h, UInt32.ofNat_toNat]
  rw [hsum, UInt32.add_sub_cancel]

/-- **A worker takes its cell along the field** until it waits or is through. -/
theorem exists_advanced (hk : k < g.cells.toNat) {left t : Nat} {c : Cell} {f : Fabric}
    {crew : Crew} (h : c.OnField g S b k t)
    (hconcord : Concord (g.plan S b N.toNat) ends f crew) (hcrew : crew k = some (c.station t))
    (hleft : t + left = N.toNat) (early : Nat) (entries : Array Entry) :
    ∃ n, Advanced g S b N ends f crew k (c.station t) (Entry.moved entries)
      (advance N left c early f entries) n := by
  induction left generalizing t c f crew early entries with
  | zero =>
    obtain rfl : t = N.toNat := hleft
    have hidle : c.peer.round = none := by
      cases hr : c.peer.round with
      | none => rfl
      | some r => exact absurd ((hconcord.station hcrew).2.round r hr).lt (Nat.lt_irrefl _)
    refine ⟨N.toNat, ?_, h, rfl, rfl, rfl, rfl, .inr ⟨rfl, rfl, hidle⟩⟩
    change Concord _ _ f (Function.update crew k (some (c.station N.toNat)))
    rw [← hcrew, Function.update_eq_self]
    exact hconcord
  | succ left ih =>
    obtain ⟨n, hstepped⟩ := h.poll hk hconcord hcrew (by omega)
    simp only [advance, iteration_eq hleft]
    have hmoved := Entry.moved_appendList entries (c.poll (UInt32.ofNat t) f).entries
    have htoCome := hstepped.toCome
    have hcounted := hstepped.counted
    rcases hstepped.verdict with ⟨hwaiting, rfl, hround⟩ | ⟨⟨n', hfinished⟩, rfl, hidle⟩
    · simp only [hwaiting]
      refine ⟨n, hstepped.concord, hstepped.onField, rfl, hleft, ?_, ?_,
        .inl ⟨rfl, by omega, hround⟩⟩
      · simp only [hmoved]
        omega
      · simp only [hmoved]
        omega
    · simp only [hfinished]
      obtain ⟨m, hadvanced⟩ := ih hstepped.onField hstepped.concord (Function.update_self ..)
        (by omega) (early + n') (entries.appendList (c.poll (UInt32.ofNat t) f).entries)
      obtain ⟨hconcord', hfield', hiterations, hleft', htoCome', hcounted', hverdict⟩ := hadvanced
      rw [Function.update_idem] at hconcord'
      rw [hmoved] at htoCome' hcounted'
      exact ⟨m, hconcord', hfield', hiterations, hleft', by omega, by omega, hverdict⟩

end Worker

/-! ### Polls that move nothing -/

/-- A poll that sends and takes nothing leaves the links and counters as they were. -/
theorem Peer.fabric_poll_of_still {p : Peer} {incoming : Compass Edge} {f : Fabric}
    (h : (p.poll incoming f).acts.countP Act.moves = 0) : (p.poll incoming f).fabric = f := by
  cases hr : p.round with
  | none => simp only [poll, hr]
  | some r =>
    simp only [poll, hr] at h ⊢
    obtain ⟨listening, hsession⟩ := Session.poll_still _ h
    rw [hsession]
    simp only [Fabric.store_ports]

theorem Cell.fabric_poll_of_still {c : Cell} {iteration : UInt32} {f : Fabric}
    (h : (c.poll iteration f).entries.countP Entry.moves = 0) :
    (c.poll iteration f).fabric = f := by
  have hresume : ∀ c' : Cell, (c'.resume f).entries.countP Entry.moves = 0 →
      (c'.resume f).fabric = f := by
    intro c' hc'
    refine Peer.fabric_poll_of_still ?_
    rwa [resume, Entry.countP_ofActs] at hc'
  unfold poll at h ⊢
  split
  · next hr =>
    rw [hr] at h
    exact hresume c h
  · next hr =>
    rw [hr] at h
    split
    · rfl
    · next hbegin =>
      simp only [hbegin, List.countP_append] at h
      exact hresume _ (by omega)

namespace Worker

/-- The entries of a poll only grow, and a poll that adds no frame to them leaves the links and
counters as they were. -/
theorem fabric_advance_of_still (N : UInt32) (left : Nat) (c : Cell) (early : Nat) (f : Fabric)
    (entries : Array Entry) :
    Entry.moved entries ≤ Entry.moved (advance N left c early f entries).entries ∧
      (Entry.moved (advance N left c early f entries).entries = Entry.moved entries →
        (advance N left c early f entries).fabric = f) := by
  induction left generalizing c early f entries with
  | zero => exact ⟨Nat.le_refl _, fun _ => rfl⟩
  | succ left ih =>
    have hmoved := Entry.moved_appendList entries
      (c.poll (N - UInt32.ofNat (left + 1)) f).entries
    have hstill := @Cell.fabric_poll_of_still c (N - UInt32.ofNat (left + 1)) f
    simp only [advance]
    generalize c.poll (N - UInt32.ofNat (left + 1)) f = p at *
    split
    · next n hverdict =>
      obtain ⟨hle, hsame⟩ := ih p.cell (early + n) p.fabric (entries.appendList p.entries)
      exact ⟨by omega, fun heq => (hsame (by omega)).trans (hstill (by omega))⟩
    · exact ⟨by simp only [hmoved]; omega, fun heq => hstill (by simp only [hmoved] at heq; omega)⟩
    · exact ⟨by simp only [hmoved]; omega, fun heq => hstill (by simp only [hmoved] at heq; omega)⟩

/-- The frames of the first step of a poll are among those of the poll. -/
theorem moved_first_le (N : UInt32) (left : Nat) (c : Cell) (early : Nat) (f : Fabric)
    (entries : Array Entry) :
    Entry.moved entries + (c.poll (N - UInt32.ofNat (left + 1)) f).entries.countP Entry.moves ≤
      Entry.moved (advance N (left + 1) c early f entries).entries := by
  have hmoved := Entry.moved_appendList entries (c.poll (N - UInt32.ofNat (left + 1)) f).entries
  simp only [advance]
  generalize c.poll (N - UInt32.ofNat (left + 1)) f = p at *
  split
  · next n _ =>
    have hle := (fabric_advance_of_still N left p.cell (early + n) p.fabric
      (entries.appendList p.entries)).1
    omega
  · exact Nat.le_of_eq hmoved.symm
  · exact Nat.le_of_eq hmoved.symm

end Worker

/-- A station without neighbors has nothing to do in a round. -/
theorem Station.Sound.over_of_alone {P : Plan} {i : Nat} {x : Station} (h : x.Sound P i)
    (halone : ∀ d, P.mate i d = none) {r : Round} (hr : x.peer.round = some r) :
    x.peer.exchange.unsent = 0 ∧ r.receives = 0 := by
  have hfollows := h.round r hr
  have horder : x.peer.exchange.sendOrder = [] := by
    rw [h.sendOrder, List.filter_eq_nil_iff]
    intro d _
    rw [halone d]
    exact Bool.false_ne_true
  constructor
  · have hsends := hfollows.sends
    rw [horder] at hsends
    exact (Nat.add_eq_zero_iff.1 hsends).2
  · rw [hfollows.receives, Compass.count_eq_zero_iff]
    intro d
    cases hd : r.awaiting.get d with
    | false => rfl
    | true =>
      have hjoined := hfollows.joined d hd
      rw [halone d] at hjoined
      cases hjoined

namespace Worker

variable {g : Geometry} {S : Nat} {b : Border} {N : UInt32} {ends : Nat → Ends} {k : Nat}

/-- **A worker whose cell can get on moves a frame or finishes.** -/
theorem moves_of_headway (hk : k < g.cells.toNat) {left t : Nat} {c : Cell} {f : Fabric}
    {crew : Crew} (h : c.OnField g S b k t)
    (hconcord : Concord (g.plan S b N.toNat) ends f crew) (hcrew : crew k = some (c.station t))
    (hleft : t + left = N.toNat) (hhead : Headway (g.plan S b N.toNat) k f (c.station t))
    (early : Nat) (entries : Array Entry) :
    Entry.moved entries < Entry.moved (advance N left c early f entries).entries ∨
      (advance N left c early f entries).verdict = .finished () := by
  have hfirst : t < N.toNat → (c.poll (UInt32.ofNat t) f).entries.countP Entry.moves ≠ 0 →
      Entry.moved entries < Entry.moved (advance N left c early f entries).entries := by
    intro hlt hmoves
    obtain ⟨left, rfl⟩ := Nat.exists_eq_succ_of_ne_zero (show left ≠ 0 by omega)
    have hle := moved_first_le N left c early f entries
    rw [← Nat.succ_eq_add_one, iteration_eq hleft] at hle
    omega
  cases hhead with
  | through hdone =>
    have hdone : t = N.toNat := hdone
    obtain rfl : left = 0 := by omega
    exact .inr rfl
  | alone halone =>
    obtain ⟨n, hadvanced⟩ := exists_advanced hk h hconcord hcrew hleft early entries
    rcases hadvanced.verdict with ⟨-, -, hround⟩ | ⟨hfinished, -⟩
    · obtain ⟨r, hr⟩ := Option.isSome_iff_exists.1 hround
      have hsound := (hadvanced.concord.station (Function.update_self ..)).2
      exact absurd (hsound.over_of_alone halone hr) (hadvanced.onField.underway r hr).2
    · exact .inr hfinished
  | resume hround hmoves =>
    obtain ⟨r, hr⟩ := Option.isSome_iff_exists.1 hround
    have hr : c.peer.round = some r := hr
    refine .inl (hfirst ((hconcord.station hcrew).2.round r hr).lt ?_)
    simp only [Cell.poll, hr]
    rw [Cell.resume, Entry.countP_ofActs]
    exact hmoves
  | start hidle hlt hmoves =>
    have hidle : c.peer.round = none := hidle
    obtain ⟨acts, -, hbegin⟩ := h.begin_eq hk (hconcord.station hcrew).2 hidle
    refine .inl (hfirst hlt ?_)
    simp only [Cell.poll, hidle, hbegin, List.countP_append]
    have hresume : ((c.begunBy g S b N.toNat k t).resume f).entries.countP Entry.moves ≠ 0 := by
      rw [Cell.resume, Entry.countP_ofActs]
      exact hmoves
    omega

end Worker
end DiffusionMesh

/-
# Steps are all or nothing

A step of a cell stages new outgoing edges before it sends them, and makes its new tile the current one
only when it is over. It can fail, or be given up after any poll; its neighbors may do anything to the
links between two polls. What a step leaves behind depends on how far it got:

| the step | current tile | edges not handed to a link |
| --- | --- | --- |
| finished | the update | none |
| failed or given up | as before | the last `k` in the order of sending |
| refused | as before, like all else | as before |

A step is refused as long as `k > 0`, so no edge is overwritten before a link has taken it
(`Mesh.step_atomic`).
-/

import DiffusionMesh.Proofs.Halo.Sending
import DiffusionMesh.Proofs.Mesh.Accounts

namespace DiffusionMesh

/-- A call of a step: its iteration, and the links and counters as each of its polls finds them. The
step is given up if it still waits after the last poll. -/
structure StepCall where
  iteration : UInt32
  found : List Fabric

/-- What became of a cell in a step, the polls of the step with what each has found and done, and how
the step ended. -/
structure Cell.Attempt where
  cell : Cell
  polls : List (Fabric × Cell.Polled)
  verdict : Verdict Nat

/-- What a step has recorded. -/
def Cell.Attempt.entries (q : Attempt) : List Entry := q.polls.flatMap fun p => p.2.entries

/-- The edges that a step has handed to links. -/
def Cell.Attempt.handed (q : Attempt) : List Act := (Entry.acts q.entries).filter Act.sends

/-- A step that has not begun, since edges of an earlier one are still to be sent. -/
def Cell.Attempt.Refused (q : Attempt) : Prop :=
  ∃ cell pending, q.verdict = .failed (.sendsInFlight cell pending)

namespace Cell

/-- Polls a step until it is over, has failed, or is given up. -/
def step (c : Cell) (iteration : UInt32) : List Fabric → Attempt
  | [] => ⟨c.cancel, [], .waiting⟩
  | f :: rest =>
    let p := c.poll iteration f
    match p.verdict with
    | .waiting =>
      let q := step p.cell iteration rest
      ⟨q.cell, (f, p) :: q.polls, q.verdict⟩
    | verdict => ⟨p.cell, [(f, p)], verdict⟩

/-- The cell after some steps in turn. -/
def afterSteps (c : Cell) (calls : List StepCall) : Cell :=
  calls.foldl (fun c call => (c.step call.iteration call.found).cell) c

variable {x c : Cell} {order : List Direction} {t : UInt32} {acts : List Act} {f : Fabric}

/-! ### A step underway -/

/-- A cell in a step that began with the cell `x`: the new tile and the new edges are staged, the
current tile is the old one. -/
structure Underway (x : Cell) (t : UInt32) (acts : List Act) (c : Cell) : Prop where
  id : c.id = x.id
  ends : c.peer.ends = x.peer.ends
  sendOrder : c.peer.exchange.sendOrder = x.peer.exchange.sendOrder
  current : c.state.current = x.state.current
  next : c.state.next = x.state.update.next
  outgoing : c.state.outgoing = x.state.update.outgoing
  sending : ∃ r, c.peer.round = some r ∧ r.Sending x.peer.exchange.sendOrder t
    x.state.update.outgoing acts c.peer.exchange.unsent

/-- What a step that began with the cell `x` leaves behind. -/
structure Leaves (x : Cell) (t : UInt32) (acts : List Act) (c : Cell) (verdict : Verdict Nat) :
    Prop where
  idle : c.peer.round = none
  id : c.id = x.id
  ends : c.peer.ends = x.peer.ends
  sendOrder : c.peer.exchange.sendOrder = x.peer.exchange.sendOrder
  finished : ∀ n, verdict = .finished n →
    c.state.current = x.state.update.next ∧ c.peer.exchange.unsent = 0
  unfinished : (∀ n, verdict ≠ .finished n) → c.state.current = x.state.current
  outgoing : c.state.outgoing = x.state.update.outgoing
  sending : ∃ r : Round, r.Sending x.peer.exchange.sendOrder t x.state.update.outgoing acts
    c.peer.exchange.unsent

/-- A step that waits can be given up. -/
theorem Underway.cancel (h : x.Underway t acts c) : x.Leaves t acts c.cancel .waiting := by
  obtain ⟨r, -, hsending⟩ := h.sending
  exact ⟨rfl, h.id, h.ends, h.sendOrder, (fun _ hn => by cases hn), fun _ => h.current, h.outgoing,
    r, hsending⟩

/-- What a poll of a step leads to: the step is still underway, or is over. -/
structure Leads (x : Cell) (t : UInt32) (acts : List Act) (p : Polled) : Prop where
  waiting : p.verdict = .waiting → x.Underway t (acts ++ Entry.acts p.entries) p.cell
  ended : p.verdict ≠ .waiting → x.Leaves t (acts ++ Entry.acts p.entries) p.cell p.verdict

/-- **A poll of a step underway leads on.** -/
theorem Underway.leads (h : x.Underway t acts c) (f : Fabric) : x.Leads t acts (c.resume f) := by
  obtain ⟨r, hr, hsending⟩ := h.sending
  have hpoll := c.peer.poll_eq hr c.state.incoming f
  have hledger := (c.peer.session r c.state.incoming f).ledger_poll
  have hsends : (c.peer.session r c.state.incoming f).poll.session.round.Sending
      x.peer.exchange.sendOrder t x.state.update.outgoing
      (acts ++ (c.peer.session r c.state.incoming f).poll.acts)
      (c.peer.session r c.state.incoming f).poll.session.exchange.unsent :=
    hsending.poll h.sendOrder
  have hfinished := fun report
      (hq : (c.peer.session r c.state.incoming f).poll.verdict = .finished report) =>
    Session.poll_finished _ hq
  have hid : (c.peer.session r c.state.incoming f).poll.session.exchange.cell = x.id :=
    hledger.cell.trans h.id
  have horder : (c.peer.session r c.state.incoming f).poll.session.exchange.sendOrder =
      x.peer.exchange.sendOrder := hledger.sendOrder.trans h.sendOrder
  generalize (c.peer.session r c.state.incoming f).poll = q at *
  rw [← Entry.acts_ofActs c.id (c.running?.getD 0) q.acts] at hsends
  simp only [resume, hpoll]
  -- the verdict alone decides whether a round is left and whether the tiles are swapped
  cases hverdict : q.verdict with
  | waiting =>
    exact ⟨fun _ => ⟨hid, h.ends, horder, h.current, h.next, h.outgoing, _, rfl, hsends⟩,
      fun hne => absurd rfl hne⟩
  | finished report =>
    refine ⟨(fun hwaiting => by cases hwaiting), fun _ => ⟨rfl, hid, h.ends, horder, fun _ _ => ?_,
      fun hne => absurd rfl (hne _), h.outgoing, _, hsends⟩⟩
    exact ⟨h.next, (hfinished report hverdict).2.1⟩
  | failed cause =>
    exact ⟨(fun hwaiting => by cases hwaiting), fun _ => ⟨rfl, hid, h.ends, horder,
      (fun _ hn => by cases hn), fun _ => h.current, h.outgoing, _, hsends⟩⟩

/-- What a step leaves behind, by its first poll and by the others. -/
theorem leaves_cons (acts : List Act) {rest : List Fabric} (h : x.Leads t acts (c.poll t f))
    (hrest : ∀ {acts c}, x.Underway t acts c →
      x.Leaves t (acts ++ Entry.acts (c.step t rest).entries) (c.step t rest).cell
        (c.step t rest).verdict) :
    let q := c.step t (f :: rest)
    x.Leaves t (acts ++ Entry.acts q.entries) q.cell q.verdict := by
  have hone : Entry.acts (Attempt.entries ⟨(c.poll t f).cell, [(f, c.poll t f)],
      (c.poll t f).verdict⟩) = Entry.acts (c.poll t f).entries :=
    congrArg Entry.acts (List.append_nil _)
  rw [step]
  dsimp only
  cases hverdict : (c.poll t f).verdict with
  | waiting =>
    have hleaves := hrest (h.waiting hverdict)
    rw [List.append_assoc, ← Entry.acts_append] at hleaves
    exact hleaves
  | finished n =>
    have hleaves := h.ended (by simp [hverdict])
    rw [← hone, hverdict] at hleaves
    exact hleaves
  | failed cause =>
    have hleaves := h.ended (by simp [hverdict])
    rw [← hone, hverdict] at hleaves
    exact hleaves

/-- **However a step underway goes on**, it leaves the cell as a step does. -/
theorem Underway.leaves (h : x.Underway t acts c) (found : List Fabric) :
    x.Leaves t (acts ++ Entry.acts (c.step t found).entries) (c.step t found).cell
      (c.step t found).verdict := by
  induction found generalizing c acts with
  | nil =>
    rw [show Entry.acts (c.step t []).entries = [] from rfl, List.append_nil]
    exact h.cancel
  | cons f rest ih =>
    obtain ⟨r, hr, -⟩ := h.sending
    exact leaves_cons acts (poll_of_running hr t f ▸ h.leads f) fun hunderway => ih hunderway

/-! ### A step from its beginning -/

/-- A step begins when all edges have been sent. -/
theorem begin_of_drained (hdrained : x.peer.exchange.unsent = 0) (t : UInt32) :
    ∃ begun entries, x.begin t = .ok (begun, entries) ∧
      x.Underway t (Entry.acts entries) begun := by
  have hcurrent : x.state.update.current = x.state.current := by
    unfold LocalState.update
    split <;> rfl
  refine ⟨_, _, by rw [begin, Exchange.ensureDrained, if_pos hdrained]; rfl, ?_⟩
  rw [Entry.acts_ofActs]
  refine ⟨rfl, rfl, rfl, hcurrent, rfl, rfl, _, rfl, ?_⟩
  exact .start x.peer.exchange t x.state.update.outgoing x.state.update.incoming

/-- A step does not begin as long as edges are to be sent. -/
theorem begin_of_unsent (hunsent : x.peer.exchange.unsent ≠ 0) (t : UInt32) :
    x.begin t = .error (.sendsInFlight x.id x.peer.exchange.unsent) := by
  rw [begin, Exchange.ensureDrained, if_neg hunsent]
  rfl

/-- **A step is refused as long as edges are to be sent**, and leaves all as it was. -/
theorem step_of_unsent (hidle : x.peer.round = none) (hunsent : x.peer.exchange.unsent ≠ 0)
    (t : UInt32) (f : Fabric) (rest : List Fabric) :
    let refusal := Failure.sendsInFlight x.id x.peer.exchange.unsent
    x.step t (f :: rest) = ⟨x, [(f, ⟨x, f, [], .failed refusal⟩)], .failed refusal⟩ := by
  rw [step, poll_of_refused hidle (begin_of_unsent hunsent t)]

/-- A step that is given up before its first poll does nothing. -/
theorem step_nil (hidle : x.peer.round = none) (t : UInt32) : x.step t [] = ⟨x, [], .waiting⟩ := by
  cases x with
  | mk position state peer =>
    cases peer with
    | mk exchange ends round =>
      obtain rfl : round = none := hidle
      rfl

/-- What a step leaves behind that has begun. -/
theorem leaves_step (hidle : x.peer.round = none) (hdrained : x.peer.exchange.unsent = 0)
    (t : UInt32) (f : Fabric) (rest : List Fabric) :
    let q := x.step t (f :: rest)
    x.Leaves t (Entry.acts q.entries) q.cell q.verdict := by
  obtain ⟨begun, entries, hbegin, hunderway⟩ := begin_of_drained hdrained t
  have hleads := hunderway.leads f
  refine leaves_cons [] ?_ fun h => h.leaves rest
  rw [poll_of_begun hidle hbegin]
  refine ⟨fun hverdict => ?_, fun hverdict => ?_⟩
  · rw [List.nil_append, Entry.acts_append]
    exact hleads.waiting hverdict
  · rw [List.nil_append, Entry.acts_append]
    exact hleads.ended hverdict

/-- A step that is not refused has begun with all edges sent. -/
theorem drained_of_not_refused (hidle : x.peer.round = none) {t : UInt32} {found : List Fabric}
    (hfound : found ≠ []) (h : ¬ (x.step t found).Refused) : x.peer.exchange.unsent = 0 := by
  by_contra hunsent
  obtain ⟨f, rest, rfl⟩ := List.exists_cons_of_ne_nil hfound
  exact h ⟨_, _, congrArg Attempt.verdict (step_of_unsent hidle hunsent t f rest)⟩

/-- A step that finds a link cut at its first turn fails and leaves all its edges to be sent. -/
theorem step_of_severed {d : Direction} (hidle : x.peer.round = none)
    (hdrained : x.peer.exchange.unsent = 0)
    (hturn : let s := x.peer.exchange.start t x.state.update.outgoing x.state.update.incoming
      Session.turn ⟨s.1, s.2.1, s.2.2.1, f.ports x.peer.ends, f.stats⟩ = .severed d)
    (rest : List Fabric) :
    let q := x.step t (f :: rest)
    q.verdict = .failed (.linkClosed x.id d t) ∧
      q.cell.peer.exchange.unsent = x.peer.exchange.neighborCount := by
  obtain ⟨begun, entries, hbegin, -⟩ := begin_of_drained hdrained t
  obtain ⟨rfl, rfl⟩ := of_begin hbegin
  rw [step, poll_of_begun hidle hbegin, resume, Peer.poll_eq _ rfl, Peer.session,
    Session.poll_of_severed hturn]
  exact ⟨rfl, rfl⟩

/-- **What a step leaves behind** that is not refused. -/
theorem leaves_of_not_refused (hidle : x.peer.round = none) {t : UInt32} {found : List Fabric}
    (hfound : found ≠ []) (h : ¬ (x.step t found).Refused) :
    let q := x.step t found
    x.Leaves t (Entry.acts q.entries) q.cell q.verdict := by
  have hdrained := drained_of_not_refused hidle hfound h
  obtain ⟨f, rest, rfl⟩ := List.exists_cons_of_ne_nil hfound
  exact leaves_step hidle hdrained t f rest

/-- **The current tile changes in a step that finishes, and only then.** -/
theorem current_step (hidle : x.peer.round = none) (t : UInt32) (found : List Fabric) :
    let q := x.step t found
    (∀ n, q.verdict = .finished n → q.cell.state.current = x.state.update.next) ∧
      ((∀ n, q.verdict ≠ .finished n) → q.cell.state.current = x.state.current) := by
  cases found with
  | nil =>
    rw [step_nil hidle]
    refine ⟨fun n hn => ?_, fun _ => rfl⟩
    cases hn
  | cons f rest =>
    by_cases hunsent : x.peer.exchange.unsent = 0
    · have hleaves := leaves_step hidle hunsent t f rest
      exact ⟨fun n hn => (hleaves.finished n hn).1, hleaves.unfinished⟩
    · rw [step_of_unsent hidle hunsent]
      refine ⟨fun n hn => ?_, fun _ => rfl⟩
      cases hn

/-! ### Steps in turn -/

/-- A cell between two steps, with the name, the links and the neighbors that it had at first. -/
structure Rests (start c : Cell) : Prop where
  idle : c.peer.round = none
  id : c.id = start.id
  ends : c.peer.ends = start.peer.ends
  sendOrder : c.peer.exchange.sendOrder = start.peer.exchange.sendOrder

/-- After every step a cell rests. -/
theorem Rests.step {start : Cell} (h : start.Rests c) (t : UInt32) (found : List Fabric) :
    start.Rests (c.step t found).cell := by
  cases found with
  | nil =>
    rw [step_nil h.idle]
    exact h
  | cons f rest =>
    by_cases hunsent : c.peer.exchange.unsent = 0
    · have hleaves := leaves_step h.idle hunsent t f rest
      exact ⟨hleaves.idle, hleaves.id.trans h.id, hleaves.ends.trans h.ends,
        hleaves.sendOrder.trans h.sendOrder⟩
    · rw [step_of_unsent h.idle hunsent]
      exact h

theorem Rests.afterSteps {start : Cell} (h : start.Rests c) (calls : List StepCall) :
    start.Rests (c.afterSteps calls) := by
  induction calls generalizing c with
  | nil => exact h
  | cons call rest ih => exact ih (h.step call.iteration call.found)

/-- **A cell with edges to send stays as it is**, however many steps are asked of it. -/
theorem afterSteps_of_unsent (hidle : x.peer.round = none) (hunsent : x.peer.exchange.unsent ≠ 0)
    (calls : List StepCall) : x.afterSteps calls = x := by
  induction calls with
  | nil => rfl
  | cons call rest ih =>
    have hstep : (x.step call.iteration call.found).cell = x := by
      cases call.found with
      | nil => rw [step_nil hidle]
      | cons f rest => rw [step_of_unsent hidle hunsent]
    rw [afterSteps, List.foldl_cons, hstep]
    exact ih

/-! ### Links -/

/-- A poll leaves the ends of a cell alone. -/
theorem ends_poll (c : Cell) (t : UInt32) (f : Fabric) :
    (c.poll t f).cell.peer.ends = c.peer.ends := by
  obtain ⟨cause, hpoll⟩ | ⟨started, entries, hpoll, hstarted, -⟩ := c.poll_cases t f
  · rw [hpoll]
  · rw [hpoll, ← hstarted.ends]
    simp only [resume, Peer.poll]
    split <;> rfl

/-- The polls of a step are polls of a cell with the same ends. -/
theorem exists_of_mem_polls {found : List Fabric} {p : Fabric × Polled}
    (hp : p ∈ (c.step t found).polls) :
    ∃ y : Cell, y.peer.ends = c.peer.ends ∧ p.2 = y.poll t p.1 := by
  induction found generalizing c with
  | nil => exact absurd hp List.not_mem_nil
  | cons f rest ih =>
    have hfirst : ∀ {ps}, p ∈ (f, c.poll t f) :: ps → (p ∈ ps →
        ∃ y : Cell, y.peer.ends = c.peer.ends ∧ p.2 = y.poll t p.1) →
        ∃ y : Cell, y.peer.ends = c.peer.ends ∧ p.2 = y.poll t p.1 := by
      intro ps hmem hlater
      rcases List.mem_cons.1 hmem with rfl | hmem
      · exact ⟨c, rfl, rfl⟩
      · exact hlater hmem
    rw [step] at hp
    dsimp only at hp
    split at hp
    · refine hfirst hp fun hmem => ?_
      obtain ⟨y, hy, hpoll⟩ := ih hmem
      exact ⟨y, hy.trans (ends_poll c t f), hpoll⟩
    · exact hfirst hp fun hmem => absurd hmem List.not_mem_nil

/-- A step that is resumed puts the edges it sends at the end of their links, and nothing else. -/
theorem outQueue_resume (h : c.peer.ends.Apart f.links.size) (d : Direction) :
    ((c.resume f).fabric.ports c.peer.ends).outQueue d = (f.ports c.peer.ends).outQueue d ++
      (Entry.acts (c.resume f).entries).flatMap (Act.sentOn d) := by
  cases hr : c.peer.round with
  | none =>
    rw [resume_of_idle hr]
    exact (List.append_nil _).symm
  | some r =>
    have hpoll := c.peer.poll_eq hr c.state.incoming f
    have hledger := (c.peer.session r c.state.incoming f).ledger_poll
    have hports := Fabric.ports_store h hledger.replaces
    rw [resume, hpoll]
    dsimp only
    rw [Entry.acts_ofActs]
    change ((f.store c.peer.ends _).ports c.peer.ends).outQueue d = _
    rw [hports]
    exact hledger.outQueue d

/-- **So does every poll**: kept edges that are put to use at its beginning touch no link. -/
theorem outQueue_poll (h : c.peer.ends.Apart f.links.size) (t : UInt32) (d : Direction) :
    ((c.poll t f).fabric.ports c.peer.ends).outQueue d = (f.ports c.peer.ends).outQueue d ++
      (Entry.acts (c.poll t f).entries).flatMap (Act.sentOn d) := by
  obtain ⟨cause, hpoll⟩ | ⟨started, entries, hpoll, hstarted, -, hpromotes⟩ := c.poll_cases t f
  · rw [hpoll]
    exact (List.append_nil _).symm
  · have hsent := (Act.frames_of_promotes hpromotes d).1
    rw [hpoll]
    dsimp only
    rw [Entry.acts_append, List.flatMap_append, hsent, List.nil_append, ← hstarted.ends]
    exact outQueue_resume (hstarted.ends ▸ h) d

end Cell

/-- A cell of a new mesh has begun no step, and is to send to its neighbors in the order of
directions. -/
theorem Mesh.idle_of_assemble {c : Config} {m : Mesh} (h : assemble c = .ok m) {k : Nat}
    {start : Cell} (hk : m.cell? k = some start) {neighbors : Compass (Option CellId)}
    (hneighbors : m.geometry.neighbors start.id = .ok neighbors) : start.peer.round = none ∧
      start.peer.exchange.sendOrder = neighbors.directions Option.isSome := by
  obtain ⟨-, ends, houtset⟩ := assembled h
  have hlt : k < m.geometry.cells.toNat := by
    by_contra hge
    rw [houtset.cells, if_neg hge] at hk
    cases hk
  rw [houtset.cells, if_pos hlt] at hk
  obtain rfl := Option.some.inj hk
  have hsound := (houtset.wired.sound_outset (fun k => ⟨UInt32.ofNat k⟩) k :
    Station.Sound (m.geometry.plan c.edgeLength.toNat c.border 0) k _)
  obtain rfl := Except.ok.inj (hneighbors.symm.trans (Geometry.neighbors_eq hlt))
  refine ⟨rfl, hsound.sendOrder.trans (List.filter_congr fun d _ => ?_)⟩
  rw [Compass.get_ofFn, Option.isSome_map]
  rfl

/-- **A step is all or nothing, and no edge is lost.** Whatever steps a cell of a mesh has been asked
for, in whatever iterations, and whatever its neighbors have done to the links between the polls: the
current tile changes only in a step that finishes, to the update of the tile and the incoming edges
that the step began with. As long as a step has left edges to be sent, every later one is refused and
changes nothing. And a step that is not refused sends the edges it has staged, one frame to each
neighbor, in order; all of them have gone into the links before another step is not refused. -/
theorem Mesh.step_atomic {c : Config} {m : Mesh} (h : assemble c = .ok m) {k : Nat} {start : Cell}
    (hk : m.cell? k = some start) {neighbors : Compass (Option CellId)}
    (hneighbors : m.geometry.neighbors start.id = .ok neighbors) (history : List StepCall)
    (call : StepCall) :
    let x := start.afterSteps history
    let q := x.step call.iteration call.found
    let order := neighbors.directions Option.isSome
    let frame := fun d => Act.sent d (outgoingFrame call.iteration x.state.update.outgoing d)
    ((∀ n, q.verdict = .finished n → q.cell.state.current = x.state.update.next) ∧
      ((∀ n, q.verdict ≠ .finished n) → q.cell.state.current = x.state.current)) ∧
    (q.cell.peer.exchange.unsent ≠ 0 → ∀ later : List StepCall,
      q.cell.afterSteps later = q.cell ∧ ∀ t f rest,
        let refusal := Failure.sendsInFlight start.id q.cell.peer.exchange.unsent
        q.cell.step t (f :: rest) =
          ⟨q.cell, [(f, ⟨q.cell, f, [], .failed refusal⟩)], .failed refusal⟩) ∧
    (call.found ≠ [] → ¬ q.Refused →
      q.cell.state.outgoing = x.state.update.outgoing ∧
      (∃ n, n + q.cell.peer.exchange.unsent = order.length ∧
        q.handed = (order.take n).map frame) ∧
      ∀ (later : List StepCall) (next : StepCall), next.found ≠ [] →
        ¬ ((q.cell.afterSteps later).step next.iteration next.found).Refused →
        q.handed = order.map frame) ∧
    ∀ p ∈ q.polls, p.1.links.size = m.fabric.links.size → ∀ d,
      (p.2.fabric.ports start.peer.ends).outQueue d =
        (p.1.ports start.peer.ends).outQueue d ++
          (Entry.acts p.2.entries).flatMap (Act.sentOn d) := by
  intro x q order frame
  obtain ⟨hidle, horder⟩ := idle_of_assemble h hk hneighbors
  have hx : start.Rests x := Cell.Rests.afterSteps ⟨hidle, rfl, rfl, rfl⟩ history
  have hq : start.Rests q.cell := hx.step call.iteration call.found
  have hkept : q.cell.peer.exchange.unsent ≠ 0 → ∀ later : List StepCall,
      q.cell.afterSteps later = q.cell := Cell.afterSteps_of_unsent hq.idle
  refine ⟨Cell.current_step hx.idle call.iteration call.found,
    fun hunsent later => ⟨hkept hunsent later, fun t f rest => ?_⟩, fun hfound hnot => ?_,
    fun p hp hsize d => ?_⟩
  · rw [← hq.id]
    exact Cell.step_of_unsent hq.idle hunsent t f rest
  · have hleaves := Cell.leaves_of_not_refused hx.idle hfound hnot
    obtain ⟨r, hsending⟩ := hleaves.sending
    rw [hx.sendOrder, horder] at hsending
    refine ⟨hleaves.outgoing, ⟨r.nextSend, hsending.sends, hsending.frames⟩,
      fun later next hnext hgoes => ?_⟩
    -- a step that still had edges to send would have the next one refused
    have hsent : q.cell.peer.exchange.unsent = 0 := by
      by_contra hunsent
      rw [hkept hunsent] at hgoes
      exact hunsent (Cell.drained_of_not_refused hq.idle hnext hgoes)
    exact (hsent ▸ hsending).all
  · obtain ⟨y, hy, hpoll⟩ := Cell.exists_of_mem_polls hp
    have hends := hy.trans hx.ends
    obtain ⟨-, _, houtset⟩ := assembled h
    have hapart := (balanced_of_outset houtset).apart hk
    rw [← hsize, ← hends] at hapart
    rw [hpoll, ← hends]
    exact Cell.outQueue_poll hapart call.iteration d

/-- The first cell of a square whose neighbor to the south has given up the link: a step leaves both
edges to be sent and the tile as it was, and whatever steps are asked of it then are refused. -/
theorem Mesh.step_atomic_severed : ∃ m start, assemble { cells := 4, messageWords := 3 } = .ok m ∧
    m.cell? 0 = some start ∧
    let q := start.step 0 [m.fabric.closeReceiver (start.peer.ends.outbound.get .south)]
    q.cell.peer.exchange.unsent = 2 ∧ q.cell.state.current = start.state.current ∧
    ∀ later, q.cell.afterSteps later = q.cell ∧ ∀ t f rest,
      (q.cell.step t (f :: rest)).verdict = .failed (.sendsInFlight start.id 2) := by
  obtain ⟨m, start, neighbors, hm, hk, hneighbors, hfailed, hunsent⟩ :
      ∃ m start neighbors, assemble { cells := 4, messageWords := 3 } = .ok m ∧
        m.cell? 0 = some start ∧ m.geometry.neighbors start.id = .ok neighbors ∧
        let q := start.step 0 [m.fabric.closeReceiver (start.peer.ends.outbound.get .south)]
        q.verdict = .failed (.linkClosed start.id .south 0) ∧
          q.cell.peer.exchange.unsent = 2 := by
    refine ⟨_, _, _, rfl, rfl, rfl, ?_⟩
    exact Cell.step_of_severed rfl rfl (by decide +kernel) []
  refine ⟨m, start, hm, hk, ?_⟩
  generalize m.fabric.closeReceiver (start.peer.ends.outbound.get .south) = cut at *
  obtain ⟨⟨-, hcurrent⟩, hrefused, -⟩ := step_atomic hm hk hneighbors [] ⟨0, [cut]⟩
  refine ⟨hunsent, hcurrent fun n hn => ?_, fun later => ?_⟩
  · cases hfailed.symm.trans hn
  · obtain ⟨hkept, hlater⟩ := hrefused (ne_of_eq_of_ne hunsent (by decide)) later
    refine ⟨hkept, fun t f rest => ?_⟩
    rw [← hunsent]
    exact congrArg Cell.Attempt.verdict (hlater t f rest)

end DiffusionMesh

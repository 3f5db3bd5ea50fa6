/-
# Networks of exchanges

A network is a set of peers on one fabric, joined in any pattern. Each member keeps the edges it
took last. A round that a member is asked for begins with its first poll.

Members are polled one after the other; a sweep polls every busy member once. Sweeps are repeated
as long as they finish a round or move a frame.
-/

import DiffusionMesh.Mesh.Peer

namespace DiffusionMesh

/-- A round that has not begun: its iteration and the edges to send. -/
structure Request where
  iteration : UInt32
  outgoing : Compass Edge
deriving DecidableEq, Repr

/-- A peer with the edges it took last and the round it is asked for. -/
structure Member where
  peer : Peer
  incoming : Compass Edge
  request : Option Request
deriving DecidableEq, Repr

/-- Members on one fabric. -/
structure Network where
  fabric : Fabric
  members : Array Member

/-- A poll of one member: who was polled, in which iteration, what it did, and how it ended. -/
structure Network.Event where
  member : Nat
  cell : CellId
  iteration : UInt32
  acts : List Act
  verdict : Verdict Report

namespace Network

/-- The network of the given cells, joined as listed: `(i, j, d)` joins members `i` and `j`, where
`j` lies in direction `d` from `i`. All edges taken so far are zero. -/
def create (cells : List CellId) (joins : List (Nat × Nat × Direction)) (edgeLength : Nat)
    (capacity : UInt64) : Except Failure Network := do
  let ends : Array Ends := Array.replicate cells.length .none
  let (fabric, ends) ← joins.foldlM
    (fun (fabric, ends) (i, j, d) => do
      let (fabric, a, b) ← Fabric.connect fabric (ends.getD i .none) (ends.getD j .none) d
      return (fabric, (ends.setIfInBounds i a).setIfInBounds j b))
    (Fabric.ofCapacity capacity, ends)
  let members ← (cells.zip ends.toList).mapM fun (cell, e) => do
    let peer ← Peer.create cell edgeLength e
    return { peer := peer, incoming := .const (.filled edgeLength .zero), request := none }
  return ⟨fabric, members.toArray⟩

variable (n : Network)

/-- Asks a member for a round. -/
def request (i : Nat) (r : Request) : Network :=
  { n with members := n.members.modify i fun m => { m with request := some r } }

/-- Gives up every round, begun or not. -/
def cancelAll : Network :=
  { n with members := n.members.map fun m => { m with peer := m.peer.cancel, request := none } }

/-- Whether a member has a round to do. -/
def Member.busy (m : Member) : Bool := m.peer.round.isSome || m.request.isSome

/-- The member with the round begun that it is asked for, and what beginning it did. -/
def Member.begin (m : Member) : Member × List Act :=
  match m.request with
  | none => (m, [])
  | some r =>
    let (peer, incoming, acts) := m.peer.start r.iteration r.outgoing m.incoming
    (⟨peer, incoming, none⟩, acts)

/-- Polls one member. Nothing happens if it is not busy. -/
def poll (i : Nat) : Network × Option Event :=
  match n.members[i]? with
  | none => (n, none)
  | some m =>
    let (m, begun) := Member.begin m
    match m.peer.round with
    | none => (n, none)
    | some round =>
      let polled := m.peer.poll m.incoming n.fabric
      let member := { m with peer := polled.peer, incoming := polled.incoming }
      (⟨polled.fabric, n.members.setIfInBounds i member⟩,
        some {
          member := i
          cell := m.peer.exchange.cell
          iteration := round.iteration
          acts := begun ++ polled.acts
          verdict := polled.verdict })

/-- Polls the given members in turn. -/
def pollAll : List Nat → Network → Network × List Event
  | [], n => (n, [])
  | i :: rest, n =>
    let (n, event) := n.poll i
    let (n, events) := pollAll rest n
    (n, event.toList ++ events)

/-- Whether a poll ended a round. -/
def Event.ended (e : Event) : Bool :=
  match e.verdict with
  | .waiting => false
  | _ => true

/-- Sweeps over all members until a sweep ends no round and moves no frame, at most `limit`
times. -/
def sweeps : Nat → Network → Network × List Event
  | 0, n => (n, [])
  | limit + 1, n =>
    let before := n.fabric.stats
    let (n, events) := pollAll (List.range n.members.size) n
    if events.any Event.ended || n.fabric.stats != before then
      let (n, more) := sweeps limit n
      (n, events ++ more)
    else (n, events)

/-- Runs all rounds as far as they get: the members of the schedule first, then sweeps. A member
sends at most four frames and takes at most nine in a round, so sixteen sweeps for each member
that is busy are enough. -/
def settle (schedule : List Nat) : Network × List Event :=
  let busy := (n.members.filter Member.busy).size
  let (n, events) := pollAll schedule n
  let (n, more) := sweeps (16 * busy + 1) n
  (n, events ++ more)

end Network
end DiffusionMesh

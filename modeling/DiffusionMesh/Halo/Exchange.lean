/-
# The exchange of one cell

Once per iteration a cell sends one edge to each neighbor and takes one from each. Neighbors do
not wait for each other at a barrier: one that is done with iteration `t` may send its edge of
`t + 1` while this cell is still at `t`. The parity in the frame tells such an edge apart; it is
kept in the lookahead slot of its direction until this cell starts `t + 1`.

An `Exchange` is what a cell keeps between iterations, a `Round` is one iteration in progress.
-/

import DiffusionMesh.Halo.Link

namespace DiffusionMesh

/-- What one round did: edges sent, taken from links, taken from lookahead slots, and kept for
the next round. -/
structure Report where
  sent : Nat := 0
  received : Nat := 0
  promoted : Nat := 0
  early : Nat := 0
deriving DecidableEq, Repr, Inhabited

/-- What a cell keeps between iterations. -/
structure Exchange where
  cell : CellId
  edgeLength : Nat
  /-- The directions with a neighbor, in the order in which edges are sent. -/
  sendOrder : List Direction
  /-- The directions whose inbound link has not been seen closed. -/
  listening : Compass Bool
  lookahead : Compass (Option EdgeMessage)
  /-- The edges of the latest round that no link has taken yet. -/
  unsent : Nat
deriving DecidableEq, Repr

/-- One iteration in progress. -/
structure Round where
  iteration : UInt32
  outgoing : Compass Edge
  /-- The directions whose edge of this iteration is still to come. -/
  awaiting : Compass Bool
  /-- The number of edges still to come. -/
  receives : Nat
  /-- The place in the order of sending. -/
  nextSend : Nat
  report : Report
deriving DecidableEq, Repr

/-- The parity of the iteration in progress. -/
def Round.parity (r : Round) : Parity := .ofIteration r.iteration

/-- Something that a cell did during a round. -/
inductive Act where
  /-- An edge kept from the round before was put to use. -/
  | promoted (link : Direction)
  | sent (link : Direction) (frame : Frame)
  /-- A frame was taken and its edge put to use. -/
  | applied (link : Direction) (frame : Frame)
  /-- A frame was taken and its edge kept for the next round. -/
  | parked (link : Direction) (frame : Frame)
  /-- A frame was taken and found faulty. -/
  | rejected (link : Direction) (frame : Frame)
  /-- A link was seen closed. -/
  | hungUp (link : Direction)
deriving DecidableEq, Repr

namespace Exchange

/-- The exchange of a cell that holds links in the given directions. Each link away from the cell
needs one toward it. -/
def create (cell : CellId) (edgeLength : Nat) (outbound inbound : Compass Bool) :
    Except Failure Exchange :=
  match Direction.all.find? fun d => outbound.get d != inbound.get d with
  | some d => .error (.invalidSetting (.oneWayLink cell d))
  | none =>
    .ok {
      cell := cell
      edgeLength := edgeLength
      sendOrder := outbound.directions id
      listening := inbound
      lookahead := .const none
      unsent := 0 }

variable (x : Exchange)

/-- The number of neighbors. -/
def neighborCount : Nat := x.sendOrder.length

/-- Whether a direction has a neighbor. -/
def hasNeighbor (d : Direction) : Bool := x.sendOrder.contains d

/-- Every edge of the latest round has been taken by a link. This has to hold before the outgoing
edges change. -/
def ensureDrained : Except Failure Unit :=
  if x.unsent = 0 then .ok () else .error (.sendsInFlight x.cell x.unsent)

/-- The edge kept for an iteration of the given parity. -/
def kept (p : Parity) (d : Direction) : Option Edge :=
  (x.lookahead.get d).bind fun m => if m.parity = p then some m.edge else none

/-- Starts the round of an iteration: the edges kept for it are put to use. -/
def start (iteration : UInt32) (outgoing incoming : Compass Edge) :
    Exchange × Round × Compass Edge × List Act :=
  let p := Parity.ofIteration iteration
  let promoted := Direction.all.filter fun d => (x.kept p d).isSome
  let started := { x with
    lookahead := .ofFn fun d => if (x.kept p d).isSome then none else x.lookahead.get d
    unsent := x.neighborCount }
  let round := {
    iteration := iteration
    outgoing := outgoing
    awaiting := .ofFn fun d => x.hasNeighbor d && (x.kept p d).isNone
    receives := x.neighborCount - promoted.length
    nextSend := 0
    report := { promoted := promoted.length } }
  let incoming := .ofFn fun d => (x.kept p d).getD (incoming.get d)
  (started, round, incoming, promoted.map .promoted)

end Exchange
end DiffusionMesh

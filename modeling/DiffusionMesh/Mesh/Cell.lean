/-
# Cells

A cell owns a tile and exchanges its edges with its neighbors. One step of a cell is

1. the check that all edges of the step before have been sent,
2. the update of the tile under construction and of the outgoing edges,
3. the exchange of edges,
4. the swap of the two tiles.

A step that fails or is given up keeps what it has done so far.
-/

import DiffusionMesh.Mesh.Journal
import DiffusionMesh.Mesh.Peer
import DiffusionMesh.Tile.Update

namespace DiffusionMesh

/-- A cell: where it stands, its tile and edges, and its part in the exchange. -/
structure Cell where
  position : Position
  state : LocalState
  peer : Peer

/-- What a poll of a step did, and what became of the cell and the fabric. A finished step gives
the number of edges that came early. -/
structure Cell.Polled where
  cell : Cell
  fabric : Fabric
  entries : List Entry
  verdict : Verdict Nat

namespace Cell

/-- The cell with a number and link ends, before its first step. -/
def create (g : Geometry) (id : CellId) (ends : Ends) (size : Nat) (border : Border) :
    Except Failure Cell := do
  let position ← g.position id
  let neighbors ← g.neighbors id
  let peer ← Peer.create id size ends
  return ⟨position, .initial size neighbors border, peer⟩

variable (c : Cell)

/-- The number of the cell. -/
def id : CellId := c.peer.exchange.cell

/-- The iteration of the step in progress. -/
def running? : Option UInt32 := c.peer.round.map Round.iteration

/-- Gives up the step in progress. -/
def cancel : Cell := { c with peer := c.peer.cancel }

/-- Begins the step of an iteration, up to the exchange. -/
def begin (iteration : UInt32) : Except Failure (Cell × List Entry) := do
  c.peer.exchange.ensureDrained
  let state := c.state.update
  let (peer, incoming, acts) := c.peer.start iteration state.outgoing state.incoming
  return ({ c with state := { state with incoming := incoming }, peer := peer },
    Entry.ofActs c.id iteration acts)

/-- Runs the step in progress until it is over, has failed, or has to wait. -/
def resume (fabric : Fabric) : Polled :=
  let iteration := c.running?.getD 0
  let polled := c.peer.poll c.state.incoming fabric
  let state := { c.state with incoming := polled.incoming }
  let entries := Entry.ofActs c.id iteration polled.acts
  let state := match polled.verdict with
    | .finished _ => state.swap
    | _ => state
  { cell := { c with state := state, peer := polled.peer }
    fabric := polled.fabric
    entries := entries
    verdict := match polled.verdict with
      | .finished report => .finished report.early
      | .failed cause => .failed cause
      | .waiting => .waiting }

/-- Polls the step in progress; an idle cell begins the step of the given iteration. -/
def poll (iteration : UInt32) (fabric : Fabric) : Polled :=
  match c.peer.round with
  | some _ => c.resume fabric
  | none =>
    match c.begin iteration with
    | .error cause => ⟨c, fabric, [], .failed cause⟩
    | .ok (c, begun) =>
      let polled := c.resume fabric
      { polled with entries := begun ++ polled.entries }

end Cell
end DiffusionMesh

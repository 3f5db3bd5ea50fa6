/-
# A cell on the fabric

A peer is an exchange, the ends of the links it uses, and the round it may have in progress.
Polling a peer runs its round as far as it gets on its own.
-/

import DiffusionMesh.Halo.Turn
import DiffusionMesh.Mesh.Fabric

namespace DiffusionMesh

/-- An exchange with its link ends and the round in progress, if any. -/
structure Peer where
  exchange : Exchange
  ends : Ends
  round : Option Round
deriving DecidableEq, Repr

/-- What a poll of a peer did, and what became of all that it touched. -/
structure Peer.Polled where
  peer : Peer
  incoming : Compass Edge
  fabric : Fabric
  acts : List Act
  verdict : Verdict Report

namespace Peer

/-- The peer of a cell with the given ends. -/
def create (cell : CellId) (edgeLength : Nat) (ends : Ends) : Except Failure Peer := do
  let exchange ← Exchange.create cell edgeLength (ends.outbound.map Option.isSome)
    (ends.inbound.map Option.isSome)
  return ⟨exchange, ends, none⟩

variable (p : Peer)

/-- Starts the round of an iteration; a round in progress is given up. -/
def start (iteration : UInt32) (outgoing incoming : Compass Edge) :
    Peer × Compass Edge × List Act :=
  let (exchange, round, incoming, acts) := p.exchange.start iteration outgoing incoming
  ({ p with exchange := exchange, round := some round }, incoming, acts)

/-- Gives up the round in progress. What it has done stays done. -/
def cancel : Peer := { p with round := none }

/-- Runs the round in progress until it is over, has failed, or has to wait. -/
def poll (incoming : Compass Edge) (fabric : Fabric) : Polled :=
  match p.round with
  | none => ⟨p, incoming, fabric, [], .waiting⟩
  | some round =>
    let polled := Session.poll
      { exchange := p.exchange, round := round, incoming := incoming
        ports := fabric.ports p.ends, stats := fabric.stats }
    let s := polled.session
    let round := match polled.verdict with
      | .waiting => some s.round
      | _ => none
    { peer := { p with exchange := s.exchange, round := round }
      incoming := s.incoming
      fabric := { fabric.store p.ends s.ports with stats := s.stats }
      acts := polled.acts
      verdict := polled.verdict }

end Peer
end DiffusionMesh

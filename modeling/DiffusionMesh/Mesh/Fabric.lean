/-
# The links of a mesh

All links of a mesh stand in one list and are known by their place in it. A cell holds ends: for
each direction the link it sends on and the link it receives on. Two cells are joined by a pair
of links, one for each way.
-/

import DiffusionMesh.Grid.Geometry
import DiffusionMesh.Halo.Link

namespace DiffusionMesh

/-- The links that a cell sends on and receives on, by direction. -/
structure Ends where
  outbound : Compass (Option Nat)
  inbound : Compass (Option Nat)
deriving DecidableEq, Repr, Inhabited

/-- No link at all. -/
def Ends.none : Ends := ⟨.const Option.none, .const Option.none⟩

/-- All links of a mesh and the counters they share. `capacity` is the number of frames that a
link was asked to hold. -/
structure Fabric where
  capacity : UInt64
  links : Array Link
  stats : Stats
deriving DecidableEq, Repr, Inhabited

namespace Fabric

/-- The greatest number of frames that a link can be made to hold. -/
def greatestCapacity : UInt64 := 0x1fffffffffffffff

/-- A fabric without links. -/
def ofCapacity (capacity : UInt64) : Fabric := ⟨capacity, #[], {}⟩

variable (f : Fabric)

/-- Adds a link; its number is the old number of links. -/
def addLink : Except Failure Fabric :=
  if greatestCapacity < f.capacity then .error (.linkTooLong f.capacity)
  else .ok { f with links := f.links.push (.ofCapacity f.capacity.toNat) }

/-- The fabric with one link changed. -/
def modify (link : Option Nat) (change : Link → Link) : Fabric :=
  match link with
  | some i => { f with links := f.links.modify i change }
  | none => f

/-- Gives up the sending end of a link, if there is one. -/
def closeSender (link : Option Nat) : Fabric := f.modify link Link.closeSender

/-- Gives up the receiving end of a link, if there is one. -/
def closeReceiver (link : Option Nat) : Fabric := f.modify link Link.closeReceiver

/-- Offers a frame to a link. A link that does not exist is as good as a closed one. -/
def offer (i : Nat) (frame : Frame) : Fabric × Offer :=
  match f.links[i]? with
  | none => (f, .refused)
  | some l =>
    match l.offer frame with
    | .taken link => ({ f with links := f.links.setIfInBounds i link }, .taken link)
    | answer => (f, answer)

/-- Takes a frame from a link. A link that does not exist has nothing more to come. -/
def take (i : Nat) : Fabric × Arrival :=
  match f.links[i]? with
  | none => (f, .hungUp)
  | some l =>
    match l.arrival with
    | .frame frame link =>
      ({ f with links := f.links.setIfInBounds i link }, .frame frame link)
    | answer => (f, answer)

/-- Gives up all ends of a cell. -/
def release (ends : Ends) : Fabric :=
  Direction.all.foldl
    (fun f d => (f.closeSender (ends.outbound.get d)).closeReceiver (ends.inbound.get d)) f

/-- A cell takes hold of two new ends in a direction and gives up those it had there. -/
def attach (ends : Ends) (d : Direction) (outbound inbound : Nat) : Fabric × Ends :=
  ((f.closeSender (ends.outbound.get d)).closeReceiver (ends.inbound.get d),
    ⟨ends.outbound.set d (some outbound), ends.inbound.set d (some inbound)⟩)

/-- Joins two cells by two new links, where the second cell lies in direction `d` from the
first. -/
def connect (a b : Ends) (d : Direction) : Except Failure (Fabric × Ends × Ends) := do
  let f ← f.addLink
  let f ← f.addLink
  let there := f.links.size - 2
  let back := f.links.size - 1
  let (f, a) := f.attach a d there back
  let (f, b) := f.attach b d.opposite back there
  return (f, a, b)

/-- Joins a cell with its neighbor in a direction, if it has one. -/
def joinNeighbor (g : Geometry) (id : CellId) (d : Direction) (ends : Array Ends) :
    Except Failure (Fabric × Array Ends) := do
  let neighbors ← g.neighbors id
  match neighbors.get d with
  | none => return (f, ends)
  | some other =>
    let i := id.index.toNat
    let j := other.index.toNat
    let (f, a, b) ← f.connect (ends.getD i .none) (ends.getD j .none) d
    return (f, (ends.setIfInBounds i a).setIfInBounds j b)

/-- The links between all neighbors of a mesh, and the ends of each cell. Each pair is joined
once, from its western or northern member. -/
def wire (g : Geometry) : Except Failure (Fabric × Array Ends) :=
  g.ids.foldlM
    (fun (f, ends) id => do
      let (f, ends) ← f.joinNeighbor g id .east ends
      f.joinNeighbor g id .south ends)
    (f, Array.replicate g.cells.toNat Ends.none)

/-- The links at a cell. -/
def ports (ends : Ends) : Ports :=
  ⟨ends.outbound.map (·.bind (f.links[·]?)), ends.inbound.map (·.bind (f.links[·]?))⟩

/-- The fabric with one link replaced. -/
def put (end? : Option Nat) (link : Option Link) : Fabric :=
  match end?, link with
  | some i, some l => { f with links := f.links.setIfInBounds i l }
  | _, _ => f

/-- The fabric with the links at a cell replaced. -/
def store (ends : Ends) (p : Ports) : Fabric :=
  Direction.all.foldl
    (fun f d =>
      (f.put (ends.outbound.get d) (p.outbound.get d)).put (ends.inbound.get d) (p.inbound.get d))
    f

end Fabric
end DiffusionMesh

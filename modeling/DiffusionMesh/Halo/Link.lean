/-
# Links

A link is a bounded queue of frames with a sending and a receiving end. Either end may be given
up. Frames in the queue outlive the sending end; a frame is refused once the receiving end is
given up.
-/

import DiffusionMesh.Grid.Compass
import DiffusionMesh.Halo.Message

namespace DiffusionMesh

/-- A bounded queue of frames, the oldest first, and whether its ends are still held. -/
structure Link where
  capacity : Nat
  queue : List Frame
  senderOpen : Bool
  receiverOpen : Bool
deriving DecidableEq, Repr, Inhabited

/-- What becomes of a frame that is offered to a link. -/
inductive Offer where
  /-- The receiving end is given up. -/
  | refused
  /-- The queue is full for now. -/
  | full
  | taken (link : Link)
deriving DecidableEq, Repr

/-- What a link has for its receiver. -/
inductive Arrival where
  /-- Nothing for now. -/
  | nothing
  /-- Nothing, now or later. -/
  | hungUp
  | frame (frame : Frame) (link : Link)
deriving DecidableEq, Repr

namespace Link

/-- A new link. It holds at least one frame. -/
def ofCapacity (capacity : Nat) : Link := ⟨max capacity 1, [], true, true⟩

/-- Offers a frame. -/
def offer (l : Link) (f : Frame) : Offer :=
  if l.receiverOpen then
    if l.queue.length < l.capacity then .taken { l with queue := l.queue ++ [f] } else .full
  else .refused

/-- Takes the oldest frame. -/
def arrival (l : Link) : Arrival :=
  match l.queue with
  | f :: rest => .frame f { l with queue := rest }
  | [] => if l.senderOpen then .nothing else .hungUp

/-- Gives up the sending end. -/
def closeSender (l : Link) : Link := { l with senderOpen := false }

/-- Gives up the receiving end, and with it what is still in the queue. -/
def closeReceiver (l : Link) : Link := { l with receiverOpen := false, queue := [] }

end Link

/-- The links at a cell, by direction: those it sends on and those it receives on. -/
structure Ports where
  outbound : Compass (Option Link)
  inbound : Compass (Option Link)
deriving DecidableEq, Repr

/-- The frames handed to links, taken from links, and kept because they came early, over all
cells. -/
structure Stats where
  sent : Nat := 0
  received : Nat := 0
  early : Nat := 0
deriving DecidableEq, Repr, Inhabited

end DiffusionMesh

/-
# Edge messages and their frames

An edge travels as a frame of words: a header, then the temperatures of the edge.

| word | content |
| --- | --- |
| 0 | bits 2 and 1: the side of the receiver it is for; bit 0: the parity of the iteration |
| 1 … | the temperatures |

Main statement: `decode_encode`, a frame gives back the message it was made from.
-/

import DiffusionMesh.Failure
import DiffusionMesh.Tile.Basic

namespace DiffusionMesh

/-- The number of an iteration modulo two. -/
inductive Parity where
  | even
  | odd
deriving DecidableEq, Repr, Inhabited

namespace Parity

/-- The parity of an iteration. -/
def ofIteration (t : UInt32) : Parity := if t &&& 1 = 0 then .even else .odd

/-- The parity as a bit. -/
def bit : Parity → UInt32
  | .even => 0
  | .odd => 1

@[simp] theorem ofIteration_bit (p : Parity) : ofIteration p.bit = p := by cases p <;> decide

/-- The capitalised name. -/
def name : Parity → String
  | .even => "Even"
  | .odd => "Odd"

end Parity

/-- The words that travel over a link as one piece. -/
abbrev Frame := List UInt32

/-- An edge on its way: the side of the receiver it is for, and the parity of its iteration. -/
structure EdgeMessage where
  direction : Direction
  parity : Parity
  edge : Edge
deriving DecidableEq, Repr

namespace EdgeMessage

/-- The header word for a side and a parity. -/
def headerWord (d : Direction) (p : Parity) : UInt32 := (d.code <<< 1) ||| p.bit

/-- The first word of the frame. -/
def header (m : EdgeMessage) : UInt32 := headerWord m.direction m.parity

/-- The frame of a message. -/
def encode (m : EdgeMessage) : Frame := m.header :: m.edge.toList.map Temperature.toWord

/-- The message that a frame of a given edge length holds. -/
def decode (edgeLength : Nat) : Frame → Except FrameFault EdgeMessage
  | [] => .error .empty
  | header :: values =>
    if values.length ≠ edgeLength then .error (.length edgeLength values.length)
    else if 8 ≤ header then .error (.reservedBits header)
    else
      match Direction.ofCode? (header >>> 1) with
      | none => .error (.unknownDirection header)
      | some direction =>
        .ok ⟨direction, .ofIteration (header &&& 1), (values.map Temperature.ofWord).toArray⟩

theorem headerWord_lt (d : Direction) (p : Parity) : headerWord d p < 8 := by
  cases d <;> cases p <;> decide

theorem ofCode?_headerWord (d : Direction) (p : Parity) :
    Direction.ofCode? (headerWord d p >>> 1) = some d := by
  cases d <;> cases p <;> decide

theorem ofIteration_headerWord (d : Direction) (p : Parity) :
    Parity.ofIteration (headerWord d p &&& 1) = p := by
  cases d <;> cases p <;> decide

/-- **A frame gives back the message it was made from.** -/
theorem decode_encode (m : EdgeMessage) : decode m.edge.size m.encode = .ok m := by
  have hheader : ¬ 8 ≤ headerWord m.direction m.parity := UInt32.not_le.2 (headerWord_lt _ _)
  have hedge : ((m.edge.toList.map Temperature.toWord).map Temperature.ofWord).toArray = m.edge := by
    rw [List.map_map]
    simp [Function.comp_def]
  simp only [encode, decode, List.length_map, Array.length_toList, ne_eq, not_true_eq_false,
    if_false, hheader, header, ofCode?_headerWord, ofIteration_headerWord, hedge]

/-- The edge of a message has the length that was asked for. -/
theorem size_of_decode {edgeLength : Nat} {frame : Frame} {m : EdgeMessage}
    (h : decode edgeLength frame = .ok m) : m.edge.size = edgeLength := by
  unfold decode at h
  split at h
  · cases h
  · next header values =>
    split at h
    · cases h
    · next hlength =>
      split at h
      · cases h
      · split at h
        · cases h
        · cases h
          rw [List.size_toArray, List.length_map]
          exact Decidable.not_not.1 hlength

end EdgeMessage
end DiffusionMesh

/-
# Failures

Every operation that can fail says why with a `Failure`: a cause with the values it concerns.
`Failure.message` is the one place where causes become words.
-/

import DiffusionMesh.Grid.CellId
import DiffusionMesh.Grid.Direction
import DiffusionMesh.Image.ResultWord
import DiffusionMesh.Settings.Fault

namespace DiffusionMesh

/-- Why a frame is not an edge message. -/
inductive FrameFault where
  | empty
  | length (expected got : Nat)
  | reservedBits (header : UInt32)
  | unknownDirection (header : UInt32)
deriving DecidableEq, Repr

/-- The words for a malformed frame. -/
def FrameFault.message : FrameFault → String
  | .empty => "empty frame"
  | .length expected got => s!"expected {expected} values, got {got}"
  | .reservedBits header =>
    "reserved header bits set: 0x" ++ Text.padZeros 8 (Text.hexDigits header.toNat)
  | .unknownDirection header => "bad direction code in 0x" ++ Text.hexDigits header.toNat

/-- How a neighbor breaks the order of edges. -/
inductive Violation where
  /-- A second edge of the iteration in progress. -/
  | secondEdge
  /-- An edge of a later iteration while one is already kept. -/
  | tooFarAhead
deriving DecidableEq, Repr

/-- The words for a violation. -/
def Violation.message : Violation → String
  | .secondEdge => "second edge within one iteration"
  | .tooFarAhead => "neighbor more than one iteration ahead"

/-- Why a setting is refused although it is a number of the right kind. -/
inductive SettingFault where
  | noCapacity
  /-- A link toward one side without one back from it. -/
  | oneWayLink (cell : CellId) (direction : Direction)
  | boundaryTooWide (side : Direction) (degrees : Int32)
deriving DecidableEq, Repr

/-- The words for a refused setting. -/
def SettingFault.message : SettingFault → String
  | .noCapacity => "link_capacity must be greater than 0"
  | .oneWayLink cell direction => s!"{cell.label}: {direction.name} link is not bidirectional"
  | .boundaryTooWide side degrees =>
    s!"boundary.{side.key} = {degrees} does not fit the integer part of Q16.16"

/-- Why result words or bytes are not a heat map, or not the expected one. -/
inductive ResultFault where
  /-- No piece of memory has a byte for every position. -/
  | noRoom (side : Nat)
  | outside (word : ResultWord) (side : Nat)
  | duplicate (row column : Nat)
  | wordCount (expected got : Nat)
  | byteCount (expected got : Nat)
  | differs (count row column : Nat) (ours theirs : UInt8)
deriving DecidableEq, Repr

/-- The words for a result that does not fit. -/
def ResultFault.message : ResultFault → String
  | .noRoom side => s!"a {side}x{side} grid does not fit in one piece of memory"
  | .outside word side => s!"{word.text} lies outside a {side}x{side} grid"
  | .duplicate row column => s!"duplicate result for ({row}, {column})"
  | .wordCount expected got => s!"expected {expected} results, got {got}"
  | .byteCount expected got => s!"expected {expected} bytes, got {got}"
  | .differs count row column ours theirs =>
    s!"{count} positions differ from the reference, first at ({row}, {column}): " ++
      s!"{ours} != {theirs}"

/-- Why a file could not be written. -/
inductive WriteFault where
  /-- The writer stopped taking bytes. -/
  | incomplete
  | notFound
  | isDirectory
  | notDirectory
  | noSpace
  | nameTooLong
  /-- Any other reason, in the words of the operating system. -/
  | other (reason : String)
deriving DecidableEq, Repr

/-- The words for a failed write. -/
def WriteFault.message : WriteFault → String
  | .incomplete => "failed to write whole buffer"
  | .notFound => "No such file or directory (os error 2)"
  | .notDirectory => "Not a directory (os error 20)"
  | .isDirectory => "Is a directory (os error 21)"
  | .noSpace => "No space left on device (os error 28)"
  | .nameTooLong => "File name too long (os error 36)"
  | .other reason => reason

/-- Why an operation failed. -/
inductive Failure where
  | invalidCellCount (cells : UInt32)
  | cellOutOfRange (cell cells : UInt32)
  | invalidMessageLength (words : UInt64)
  | coordinateOverflow (side : Nat)
  | invalidSetting (fault : SettingFault)
  | loading (fault : Settings.LoadFault)
  | linkClosed (cell : CellId) (direction : Direction) (iteration : UInt32)
  | malformedFrame (fault : FrameFault)
  | misrouted (cell : CellId) (tagged link : Direction)
  | protocolViolation (cell : CellId) (direction : Direction) (violation : Violation)
  | sendsInFlight (cell : CellId) (pending : Nat)
  | resultMismatch (fault : ResultFault)
  | writing (fault : WriteFault)
  /-- A link cannot be made to hold that many frames. -/
  | linkTooLong (capacity : UInt64)
deriving DecidableEq, Repr

/-- Whether a failure ends the whole program instead of the operation alone. -/
def Failure.aborts : Failure → Bool
  | .linkTooLong _ => true
  | .loading (.outOfReach _) => true
  | .resultMismatch (.noRoom _) => true
  | _ => false

/-- The words for a failure. -/
def Failure.message : Failure → String
  | .invalidCellCount cells =>
    s!"Invalid cell count {cells}: must be a power of two with an even log2"
  | .cellOutOfRange cell cells => s!"Cell {cell} is outside a mesh of {cells} cells"
  | .invalidMessageLength words => s!"Invalid message length {words}: need at least 2 words"
  | .coordinateOverflow side =>
    s!"Global grid side {side} exceeds the 4096 rows/columns addressable by result words"
  | .invalidSetting fault => s!"Invalid configuration: {fault.message}"
  | .loading fault => s!"Configuration error: {fault.message}"
  | .linkClosed cell direction iteration =>
    s!"Cell {cell.label}: link {direction.name} closed before iteration {iteration} completed"
  | .malformedFrame fault => s!"Malformed frame: {fault.message}"
  | .misrouted cell tagged link =>
    s!"Cell {cell.label}: frame tagged {tagged.name} arrived on link {link.name}"
  | .protocolViolation cell direction violation =>
    s!"Cell {cell.label}: protocol violation on {direction.name}: {violation.message}"
  | .sendsInFlight cell pending => s!"Cell {cell.label}: {pending} sends still in flight"
  | .resultMismatch fault => s!"Result mismatch: {fault.message}"
  | .writing fault => s!"IO error: {fault.message}"
  | .linkTooLong capacity => s!"a link cannot hold {capacity} frames"

end DiffusionMesh

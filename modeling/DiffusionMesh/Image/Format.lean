/-
# Image and table of a heat map

A heat map is written either as a binary PPM image or as a CSV table.

| format | content |
| --- | --- |
| PPM | `P6`, the side twice, 255, then three bytes per position: red, green, blue |
| CSV | `row,col,temp`, then one line per position |

A writer gets the content in pieces. A writer that takes only so many bytes gets the pieces up to
that point.
-/

import DiffusionMesh.Image.HeatMap

namespace DiffusionMesh

/-- How a heat map is written. -/
inductive ImageFormat where
  | ppm
  | csv
deriving DecidableEq, Repr, Inhabited

/-- A color. -/
structure Color where
  red : UInt8
  green : UInt8
  blue : UInt8
deriving DecidableEq, Repr

/-- The color of a temperature byte: from blue over green to red. -/
def Color.ofHeat (t : UInt8) : Color :=
  let twice : Int := 2 * (t.toNat : Int) - 255
  ⟨t, UInt8.ofNat (255 - twice.natAbs), 255 - t⟩

/-- The bytes of a text. -/
def textBytes (s : String) : Array UInt8 := s.toUTF8.data

namespace HeatMap

variable (m : HeatMap)

/-- The image, as its head and its pixels. -/
def ppmPieces : List (Array UInt8) :=
  [textBytes s!"P6\n{m.side} {m.side}\n255\n",
    m.bytes.flatMap fun b => let c := Color.ofHeat b; #[c.red, c.green, c.blue]]

/-- One line of the table. -/
def csvLine (k : Nat) (b : UInt8) : String := s!"{k / m.side},{k % m.side},{b}\n"

/-- The lines of the table. -/
def csvLines : List String :=
  "row,col,temp\n" :: m.bytes.toList.zipIdx.map fun (b, k) => m.csvLine k b

/-- The table. -/
def csv : String := String.join m.csvLines

/-- The pieces in which a format is written. -/
def pieces : ImageFormat → List (Array UInt8)
  | .ppm => m.ppmPieces
  | .csv => m.csvLines.map textBytes

/-- All bytes of a format. -/
def encode (format : ImageFormat) : Array UInt8 := (m.pieces format).foldl (· ++ ·) #[]

end HeatMap

/-- What a writer has received, and whether it took everything. -/
structure Written where
  bytes : Array UInt8
  result : Except WriteFault Unit

/-- Gives pieces to a writer that takes `room` more bytes. The first piece that does not fit ends
the writing, after the part of it that fits. -/
def writePieces (room : Nat) (received : Array UInt8) : List (Array UInt8) → Written
  | [] => ⟨received, .ok ()⟩
  | piece :: rest =>
    if piece.size ≤ room then writePieces (room - piece.size) (received ++ piece) rest
    else ⟨received ++ piece.extract 0 room, .error .incomplete⟩

/-- Writes a heat map to a writer that takes so many bytes in all. -/
def HeatMap.writeInto (m : HeatMap) (format : ImageFormat) (room : Nat) : Written :=
  writePieces room #[] (m.pieces format)

end DiffusionMesh

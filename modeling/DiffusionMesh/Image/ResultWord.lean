/-
# Result words

A finished cell reports each of its positions in one word:

| bits | 31 … 20 | 19 … 8 | 7 … 0 |
| --- | --- | --- | --- |
| field | row | column | temperature |

Row and column are taken modulo 4096.
-/

namespace DiffusionMesh

/-- The temperature byte of one position of the whole grid. -/
structure ResultWord where
  word : UInt32
deriving DecidableEq, Repr, Inhabited

namespace ResultWord

/-- The greatest row or column that fits. -/
def maxCoordinate : UInt32 := 0xfff

/-- Packs a position and a temperature; the coordinates lose what exceeds twelve bits. -/
def pack (row column : UInt32) (temperature : UInt8) : ResultWord :=
  ⟨((row &&& maxCoordinate) <<< 20) ||| ((column &&& maxCoordinate) <<< 8) |||
    temperature.toUInt32⟩

/-- The row. -/
def row (w : ResultWord) : UInt32 := w.word >>> 20

/-- The column. -/
def column (w : ResultWord) : UInt32 := (w.word >>> 8) &&& maxCoordinate

/-- The temperature. -/
def temperature (w : ResultWord) : UInt8 := w.word.toUInt8

/-- The text that messages show. -/
def text (w : ResultWord) : String :=
  s!"({w.row}, {w.column}) = {w.temperature}"

end ResultWord
end DiffusionMesh

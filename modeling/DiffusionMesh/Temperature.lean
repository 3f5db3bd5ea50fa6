/-
# Temperatures

A temperature is a signed 32-bit word with 16 fraction bits: the word `b` stands for `b / 65536`
degrees. Sums and differences wrap, as the words of an update engine do; a wrap is therefore never
an error but a value.

| operation | word |
| --- | --- |
| `ofDegrees d` | `d · 2¹⁶`, wrapping |
| `a + b`, `a - b` | wrapping |
| `quarter` | the floor of a quarter |
| `byte` | the whole degrees, modulo 256 |
-/

import DiffusionMesh.Text.Decimal

namespace DiffusionMesh

/-- A temperature: the word `bits` stands for `bits / 65536` degrees. -/
structure Temperature where
  bits : Int32
deriving DecidableEq, Repr

namespace Temperature

/-- Zero degrees. -/
def zero : Temperature := ⟨0⟩

instance : Inhabited Temperature := ⟨zero⟩

/-- `d` whole degrees; the high bits are lost when they do not fit. -/
def ofDegrees (d : Int32) : Temperature := ⟨d <<< 16⟩

/-- The temperature of a hot side unless the settings say otherwise. -/
def hot : Temperature := ofDegrees 255

/-- The temperature of a cold side unless the settings say otherwise. -/
def cold : Temperature := ofDegrees 40

/-- The wrapping sum. -/
protected def add (a b : Temperature) : Temperature := ⟨a.bits + b.bits⟩

/-- The wrapping difference. -/
protected def sub (a b : Temperature) : Temperature := ⟨a.bits - b.bits⟩

instance : Add Temperature := ⟨Temperature.add⟩

instance : Sub Temperature := ⟨Temperature.sub⟩

@[simp] theorem bits_add (a b : Temperature) : (a + b).bits = a.bits + b.bits := rfl

@[simp] theorem bits_sub (a b : Temperature) : (a - b).bits = a.bits - b.bits := rfl

/-- The floor of a quarter: two bits are shifted out, the sign stays. -/
def quarter (t : Temperature) : Temperature := ⟨t.bits >>> 2⟩

/-- The whole degrees modulo 256, the value that a heat map shows. -/
def byte (t : Temperature) : UInt8 := (t.bits >>> 16).toUInt32.toUInt8

/-- The order of the words as signed numbers. -/
protected def compare (a b : Temperature) : Ordering := compareOfLessAndEq a.bits b.bits

/-- The degrees with four decimal places. -/
def text (t : Temperature) : String :=
  Text.fixedPlaces 4 (t.bits < 0) t.bits.toInt.natAbs 65536

/-- The word as it travels in a frame. -/
def toWord (t : Temperature) : UInt32 := t.bits.toUInt32

/-- The temperature that a frame word stands for. -/
def ofWord (w : UInt32) : Temperature := ⟨w.toInt32⟩

@[simp] theorem ofWord_toWord (t : Temperature) : ofWord t.toWord = t := by
  cases t with
  | mk b => simp [ofWord, toWord]

@[simp] theorem toWord_ofWord (w : UInt32) : (ofWord w).toWord = w := by
  simp [ofWord, toWord]

end Temperature
end DiffusionMesh

/-
# Directions

The four sides of a square, in the order in which every list of sides is kept: north, south,
east, west. A direction has a two-bit code; opposite directions share the upper bit.
-/

namespace DiffusionMesh

/-- A side of a cell, a tile or the whole grid. -/
inductive Direction where
  | north
  | south
  | east
  | west
deriving DecidableEq, Repr, Inhabited

namespace Direction

/-- All directions in order. -/
def all : List Direction := [.north, .south, .east, .west]

theorem mem_all (d : Direction) : d ∈ all := by cases d <;> decide

/-- The direction seen from the other end. -/
def opposite : Direction → Direction
  | .north => .south
  | .south => .north
  | .east => .west
  | .west => .east

@[simp] theorem opposite_opposite (d : Direction) : d.opposite.opposite = d := by cases d <;> rfl

theorem opposite_ne (d : Direction) : d.opposite ≠ d := by cases d <;> decide

/-- The two-bit code. -/
def code : Direction → UInt32
  | .north => 0
  | .south => 1
  | .east => 2
  | .west => 3

/-- The direction with a code, if it has one. -/
def ofCode? (c : UInt32) : Option Direction := all.find? (·.code = c)

@[simp] theorem ofCode?_code (d : Direction) : ofCode? d.code = some d := by cases d <;> decide

/-- The capitalised name. -/
def name : Direction → String
  | .north => "North"
  | .south => "South"
  | .east => "East"
  | .west => "West"

/-- The name in lower case, as settings spell it. -/
def key : Direction → String
  | .north => "north"
  | .south => "south"
  | .east => "east"
  | .west => "west"

/-- The direction with a capitalised name, if there is one. -/
def ofName? (s : String) : Option Direction := all.find? (·.name = s)

end Direction
end DiffusionMesh

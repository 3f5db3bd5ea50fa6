/-
# One value per direction

`Compass α` holds a value for each of the four directions. `get` is its view: every operation is
described by what `get` gives afterwards.
-/

import DiffusionMesh.Grid.Direction

namespace DiffusionMesh

/-- A value for each direction. -/
@[ext]
structure Compass (α : Type) where
  north : α
  south : α
  east : α
  west : α
deriving DecidableEq, Repr

namespace Compass

variable {α β : Type}

/-- The value for a direction. -/
def get (c : Compass α) : Direction → α
  | .north => c.north
  | .south => c.south
  | .east => c.east
  | .west => c.west

/-- The compass with another value for one direction. -/
def set (c : Compass α) (d : Direction) (a : α) : Compass α :=
  match d with
  | .north => { c with north := a }
  | .south => { c with south := a }
  | .east => { c with east := a }
  | .west => { c with west := a }

/-- The compass of a function's values. -/
def ofFn (f : Direction → α) : Compass α := ⟨f .north, f .south, f .east, f .west⟩

/-- The same value for every direction. -/
def const (a : α) : Compass α := ⟨a, a, a, a⟩

/-- The compass of the images. -/
def map (f : α → β) (c : Compass α) : Compass β := ⟨f c.north, f c.south, f c.east, f c.west⟩

/-- The directions with their values, in order. -/
def toList (c : Compass α) : List (Direction × α) := Direction.all.map fun d => (d, c.get d)

/-- The directions whose value satisfies `p`, in order. -/
def directions (c : Compass α) (p : α → Bool) : List Direction :=
  Direction.all.filter fun d => p (c.get d)

/-- The sum of the four numbers. -/
def sum (c : Compass Nat) : Nat := c.north + c.south + c.east + c.west

instance [Inhabited α] : Inhabited (Compass α) := ⟨const default⟩

@[simp] theorem get_ofFn (f : Direction → α) (d : Direction) : (ofFn f).get d = f d := by
  cases d <;> rfl

@[simp] theorem get_const (a : α) (d : Direction) : (const a).get d = a := by cases d <;> rfl

@[simp] theorem get_map (f : α → β) (c : Compass α) (d : Direction) :
    (c.map f).get d = f (c.get d) := by
  cases d <;> rfl

theorem get_set (c : Compass α) (d e : Direction) (a : α) :
    (c.set d a).get e = if e = d then a else c.get e := by
  cases d <;> cases e <;> rfl

@[simp] theorem get_set_self (c : Compass α) (d : Direction) (a : α) : (c.set d a).get d = a := by
  simp [get_set]

theorem get_set_of_ne (c : Compass α) {d e : Direction} (h : e ≠ d) (a : α) :
    (c.set d a).get e = c.get e := by
  simp [get_set, h]

/-- Two compasses with the same values are equal. -/
theorem ext_get {c c' : Compass α} (h : ∀ d, c.get d = c'.get d) : c = c' :=
  Compass.ext (h .north) (h .south) (h .east) (h .west)

@[simp] theorem set_get_self (c : Compass α) (d : Direction) : c.set d (c.get d) = c := by
  cases d <;> rfl

/-- One value less on one side lowers the sum. -/
theorem sum_set_lt (c : Compass Nat) (d : Direction) {n : Nat} (h : n < c.get d) :
    (c.set d n).sum < c.sum := by
  cases d <;> simp only [get] at h <;> simp only [set, sum] <;> omega

end Compass
end DiffusionMesh

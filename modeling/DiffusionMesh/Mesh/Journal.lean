/-
# The journal

What happens in a mesh is recorded as entries. An entry becomes a line of the journal, with its
level in front, unless it is of a kind that is not shown.

| level | entries |
| --- | --- |
| `TRACE` | an edge was sent, received or kept |
| `DEBUG` | a kept edge was put to use; a mesh was wired; a cell started or finished |
| `WARN` | a result was dropped |
-/

import DiffusionMesh.Halo.Exchange

namespace DiffusionMesh

/-- Something worth recording. -/
inductive Entry where
  | act (cell : CellId) (iteration : UInt32) (act : Act)
  | wired (cells side : UInt32) (capacity : UInt64)
  | started (cell : CellId) (position : Position) (neighbors : Nat)
  | finished (cell : CellId) (iterations : UInt32)
  /-- A result whose receiver is gone. -/
  | dropped (word : ResultWord)
deriving DecidableEq, Repr

/-- How much detail an entry is. -/
inductive Level where
  | trace
  | debug
  | warn
deriving DecidableEq, Repr

/-- The word in front of a line. -/
def Level.name : Level → String
  | .trace => "TRACE"
  | .debug => "DEBUG"
  | .warn => "WARN"

namespace Entry

/-- The level and the words of an entry. -/
def words? : Entry → Option (Level × String)
  | .act cell t (.promoted d) =>
    some (.debug, s!"{cell.label} promoted early {d.name} edge at iteration {t}")
  | .act cell t (.sent d _) => some (.trace, s!"{cell.label} sent {d.name} edge for iteration {t}")
  | .act cell t (.applied d _) =>
    some (.trace, s!"{cell.label} received {d.name} edge for iteration {t}")
  | .act cell t (.parked d _) =>
    some (.trace, s!"{cell.label} parked early {d.name} edge during iteration {t}")
  | .act _ _ (.rejected _ _) => none
  | .act _ _ (.hungUp _) => none
  | .wired cells side capacity =>
    some (.debug, s!"Wired {cells} cells ({side}x{side}), link capacity {capacity}")
  | .started cell p n =>
    some (.debug, s!"{cell.label} starting at ({p.x}, {p.y}) with {n} neighbors")
  | .finished cell n => some (.debug, s!"{cell.label} finished {n} iterations")
  | .dropped word => some (.warn, s!"Result receiver gone, dropped {word.text}")

/-- The line of an entry. -/
def line? (e : Entry) : Option String := e.words?.map fun (level, text) => level.name ++ " " ++ text

/-- The level of an entry that is shown. -/
def level? (e : Entry) : Option Level := e.words?.map (·.1)

/-- The entries of what one cell did during one iteration. -/
def ofActs (cell : CellId) (iteration : UInt32) (acts : List Act) : List Entry :=
  acts.map (.act cell iteration)

end Entry
end DiffusionMesh

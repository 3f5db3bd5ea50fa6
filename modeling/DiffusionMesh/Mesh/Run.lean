/-
# Running a mesh

Every cell is given to a worker that takes it through its iterations, reports the tile of the
last one and leaves the mesh. Workers are polled in any order; a poll takes a worker as far as it
gets on its own, over as many iterations as that may be.

Sweeps over all workers are repeated as long as they finish a cell or move a frame.
-/

import DiffusionMesh.Image.Emit
import DiffusionMesh.Image.HeatMap
import DiffusionMesh.Mesh.Assembly
import DiffusionMesh.Solver

namespace DiffusionMesh

/-- A cell on its way through its iterations. -/
structure Worker where
  cell : Cell
  iterations : UInt32
  /-- The iterations that are not completed. -/
  left : Nat
  /-- The edges that came one iteration early. -/
  early : Nat
  started : Bool

/-- What a finished cell has done. -/
structure CellReport where
  cell : CellId
  position : Position
  iterations : UInt32
  early : Nat
  emitted : Nat
deriving DecidableEq, Repr

/-- How far a worker got in one poll. -/
structure Worker.Polled where
  worker : Worker
  fabric : Fabric
  entries : Array Entry
  verdict : Verdict Unit

namespace Worker

/-- A worker that has not started. -/
def ofCell (c : Cell) (iterations : UInt32) : Worker :=
  ⟨c, iterations, iterations.toNat, 0, false⟩

/-- Takes a cell through its last `left` iterations, until it is through, has failed, or has to
wait. -/
def advance (iterations : UInt32) :
    (left : Nat) → Cell → (early : Nat) → Fabric → Array Entry → Polled
  | 0, c, early, fabric, entries => ⟨⟨c, iterations, 0, early, true⟩, fabric, entries, .finished ()⟩
  | left + 1, c, early, fabric, entries =>
    let polled := c.poll (iterations - UInt32.ofNat (left + 1)) fabric
    let entries := entries.appendList polled.entries
    match polled.verdict with
    | .finished n => advance iterations left polled.cell (early + n) polled.fabric entries
    | .failed cause =>
      ⟨⟨polled.cell, iterations, left + 1, early, true⟩, polled.fabric, entries, .failed cause⟩
    | .waiting =>
      ⟨⟨polled.cell, iterations, left + 1, early, true⟩, polled.fabric, entries, .waiting⟩

/-- Takes a worker as far as it gets on its own. -/
def poll (w : Worker) (fabric : Fabric) : Polled :=
  let entries := if w.started then #[]
    else #[.started w.cell.id w.cell.position w.cell.peer.exchange.neighborCount]
  advance w.iterations w.left w.cell w.early fabric entries

end Worker

/-- The workers of a mesh, its links, and the result words so far, in the order in which cells
finished. -/
structure Run where
  fabric : Fabric
  workers : Array (Option Worker)
  words : Array ResultWord

/-- A poll of one worker: what it did and how it ended. -/
structure Run.Event where
  cell : Nat
  entries : Array Entry
  verdict : Verdict CellReport

namespace Run

/-- A mesh about to run for a number of iterations. -/
def ofMesh (m : Mesh) (iterations : UInt32) : Run :=
  ⟨m.fabric, m.cells.map fun c => c.map (.ofCell · iterations), #[]⟩

/-- Polls one worker. A worker that is through reports its tile; it and a worker that failed
leave the mesh. -/
def poll (r : Run) (k : Nat) : Run × Option Event :=
  match r with
  | ⟨fabric, workers, words⟩ =>
    match (workers[k]?).join with
    | none => (⟨fabric, workers, words⟩, none)
    | some w =>
      let polled := w.poll fabric
      let cell := polled.worker.cell
      match polled.verdict with
      | .waiting =>
        (⟨polled.fabric, workers.setIfInBounds k (some polled.worker), words⟩,
          some ⟨k, polled.entries, .waiting⟩)
      | .failed cause =>
        (⟨polled.fabric.release cell.peer.ends, workers.setIfInBounds k none, words⟩,
          some ⟨k, polled.entries, .failed cause⟩)
      | .finished _ =>
        let emitted := cell.state.current.resultWords cell.position
        let report : CellReport :=
          ⟨cell.id, cell.position, w.iterations, polled.worker.early, emitted.length⟩
        (⟨polled.fabric.release cell.peer.ends, workers.setIfInBounds k none,
            words.appendList emitted⟩,
          some ⟨k, polled.entries.push (.finished cell.id w.iterations), .finished report⟩)

variable (r : Run)

variable {σ : Type}

/-- Polls the given workers in turn and lets `observe` collect what they did. -/
def pollAll (observe : σ → Event → σ) : List Nat → σ → Run → σ × Run
  | [], seen, r => (seen, r)
  | k :: rest, seen, r =>
    let (r, event) := r.poll k
    pollAll observe rest (event.elim seen (observe seen)) r

/-- The number of workers that are not through. -/
def pending : Nat := (r.workers.filter Option.isSome).size

/-- Sweeps over all workers until a sweep finishes none and moves no frame, at most `limit`
times. -/
def sweeps (observe : σ → Event → σ) : (limit : Nat) → σ → Run → σ × Run
  | 0, seen, r => (seen, r)
  | limit + 1, seen, r =>
    let before := r.fabric.stats
    let pending := r.pending
    let (seen, r) := pollAll observe (List.range r.workers.size) seen r
    if r.pending < pending || r.fabric.stats != before then sweeps observe limit seen r
    else (seen, r)

/-- The iterations of the worker that has most of them left. -/
def longest : Nat :=
  r.workers.foldl (fun most w => max most (w.elim 0 Worker.left)) 0

/-- Runs all workers as far as they get: those of the schedule first, then sweeps. In an
iteration a link takes one frame and gives one, so twice the number of links, for each iteration,
and one sweep for each worker are enough. -/
def settle (observe : σ → Event → σ) (schedule : List Nat) (seen : σ) : σ × Run :=
  let limit := 2 * r.fabric.links.size * r.longest + r.workers.size + 1
  let (seen, r) := pollAll observe schedule seen r
  sweeps observe limit seen r

end Run

/-- What a whole run of a mesh gives. -/
structure Outcome where
  heatMap : HeatMap
  stats : Stats
  /-- One report per cell, in the order of their numbers. -/
  reports : List CellReport
  iterations : UInt32
deriving Repr

namespace Config

variable (c : Config)

/-- The heat map that the sequential solver finds. -/
def solve : Except Failure HeatMap := do
  c.validate
  let g ← c.geometry
  let side := c.globalSide g
  let solved := Solver.run c.iterations.toNat (.create side c.border)
  (HeatMap.ofBytes side solved.bytes).mapError .resultMismatch

/-- The reports and the first failure that a run gave so far. -/
structure Collected where
  reports : List CellReport := []
  failure : Option Failure := none

/-- Adds what one poll gave. -/
def Collected.add (seen : Collected) (e : Run.Event) : Collected :=
  match e.verdict with
  | .finished report => { seen with reports := report :: seen.reports }
  | .failed cause => { seen with failure := seen.failure <|> some cause }
  | .waiting => seen

/-- Runs a mesh with these settings to its end. The cells of the schedule are polled first. -/
def runMesh (schedule : List Nat) : Except Failure Outcome := do
  let m ← Mesh.create c
  let side := c.globalSide m.geometry
  let (seen, r) := (Run.ofMesh m c.iterations).settle Collected.add schedule {}
  match seen.failure with
  | some cause => throw cause
  | none =>
    let heatMap ← (HeatMap.ofWords side r.words.toList).mapError Failure.resultMismatch
    let reports := seen.reports.mergeSort fun a b => a.cell.index ≤ b.cell.index
    return ⟨heatMap, r.fabric.stats, reports, c.iterations⟩

/-- Runs a mesh with these settings and compares its heat map with the sequential solver's. -/
def runVerified (schedule : List Nat) : Except Failure Outcome := do
  let expected ← c.solve
  let outcome ← c.runMesh schedule
  (outcome.heatMap.checkAgainst expected).mapError .resultMismatch
  return outcome

end Config

namespace Outcome

/-- Iterations per second for a run that took so many seconds and billionths; zero if it took no
time. -/
def rate (iterations : UInt32) (seconds : UInt64) (billionths : Nat) : Text.Binary64 :=
  let whole := Text.Binary64.ofRatio false (seconds.toNat + billionths / 1000000000) 1
  let part := Text.Binary64.ofRatio false (billionths % 1000000000) 1000000000
  let elapsed := whole.addPositive part
  if elapsed = .zero false then .zero false
  else (Text.Binary64.ofRatio false iterations.toNat 1).divPositive elapsed

end Outcome
end DiffusionMesh

/-
# The command `run`

A run loads its settings, puts those of the command line over them, validates the result, runs
the mesh, and writes the heat map. The file is written after the run, so a run that fails leaves
it alone.
-/

import DiffusionMesh.Command.Invocation
import DiffusionMesh.Command.Report
import DiffusionMesh.Settings.Document
import DiffusionMesh.Settings.Load

namespace DiffusionMesh
namespace Command

/-- What a command sees of the world around it. -/
structure Surroundings where
  /-- The text of the file at a path. -/
  files : String → Option String
  environment : List (String × String)
  /-- Whether a file can be made at a path, or why not. -/
  create : String → Except WriteFault Unit
  /-- The cells that the system polls first. -/
  schedule : List Nat := []
  /-- The order in which the settings of a source come up. -/
  order : Settings.LayingOrder := .asWritten

/-- Puts the settings of the command line over others. -/
def Overrides.apply (o : Overrides) (c : Config) : Config :=
  { c with
    cells := o.cells.getD c.cells
    iterations := o.iterations.getD c.iterations
    messageWords := o.messageWords.getD c.messageWords }

/-- The settings of files and environment under those of the command line. -/
def loadSettings (s : Surroundings) (path? : Option String) (o : Overrides) :
    Except Failure Config :=
  (Config.ofFile s.files path? s.environment s.order).bind (fun c => .ok (o.apply c))
    |>.mapError .loading

/-- The settings of a command, validated. -/
def effectiveSettings (s : Surroundings) (path? : Option String) (o : Overrides) :
    Except Failure Config := do
  let c ← loadSettings s path? o
  c.validate
  return c

/-- What is printed before a run. -/
def runHead (c : Config) : List Line :=
  [heading "Running heat mesh",
    fact s!"Cells: {c.cells}",
    fact s!"Subgrid: {c.edgeLength}x{c.edgeLength}",
    fact s!"Iterations: {c.iterations}",
    .plain ""]

/-- What is printed after a run. -/
def runSummary (outcome : Outcome) (verified : Bool) (output : Option String) : List Line :=
  [.plain "Run Summary:",
    fact s!"Grid: {outcome.heatMap.side}x{outcome.heatMap.side}",
    .elapsed outcome.iterations,
    .frames outcome.stats.sent outcome.stats.early,
    fact s!"Mean temperature: {outcome.heatMap.mean.fixedPlaces 2}"] ++
  (if verified then [achievement "Matches sequential solver"] else []) ++
  (output.map fun path => achievement s!"Heat map written to {path}").toList

/-- What is printed about the settings of a run with much to say. -/
def settingsLog (c : Config) : Except Complaint (List Line) :=
  match c.document? with
  | some text => .ok [.plain "DEBUG Effective configuration:", .plain text]
  | none => .error .unwritableSettings

/-- Runs a mesh whose settings are validated. -/
def runMeshFor (s : Surroundings) (o : RunOptions) (c : Config) : Except Failure Outcome :=
  if o.verify then c.runVerified s.schedule else c.runMesh s.schedule

/-- The command `run`. -/
def performRun (s : Surroundings) (verbose quiet : Bool) (o : RunOptions) : Report :=
  match effectiveSettings s o.config o.overrides with
  | .error cause => { complaint := some (.failure cause) }
  | .ok c =>
    match if verbose && !quiet then settingsLog c else .ok [] with
    | .error complaint => { complaint := some complaint }
    | .ok log =>
      let unlessQuiet (lines : List Line) := if quiet then [] else lines
      let before := log ++ unlessQuiet (runHead c)
      match runMeshFor s o c with
      | .error cause => { lines := before, complaint := some (.failure cause) }
      | .ok outcome =>
        let lines := before ++ unlessQuiet (runSummary outcome o.verify o.output)
        match o.output with
        | none => { lines }
        | some path =>
          match s.create path with
          | .error fault => { lines := before, complaint := some (.failure (.writing fault)) }
          | .ok () => { lines, written := some (path, outcome.heatMap.encode o.format) }

end Command
end DiffusionMesh

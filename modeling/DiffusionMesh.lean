import DiffusionMesh.Image.Format
import DiffusionMesh.Main
import DiffusionMesh.Mesh.Network
import DiffusionMesh.Proofs.Halo.Turns
import DiffusionMesh.Proofs.Halo.Ledger
import DiffusionMesh.Proofs.Halo.Sending
import DiffusionMesh.Proofs.Halo.Tally
import DiffusionMesh.Proofs.Halo.Trial
import DiffusionMesh.Proofs.Halo.Completion
import DiffusionMesh.Proofs.Halo.Codec
import DiffusionMesh.Proofs.Halo.Endings
import DiffusionMesh.Proofs.Halo.Course
import DiffusionMesh.Proofs.Halo.Blame
import DiffusionMesh.Proofs.Halo.Parting
import DiffusionMesh.Proofs.Halo.Verdicts
import DiffusionMesh.Proofs.Halo.Plan
import DiffusionMesh.Proofs.Halo.Chores
import DiffusionMesh.Proofs.Mesh.Station
import DiffusionMesh.Proofs.Mesh.Traffic
import DiffusionMesh.Proofs.Mesh.Session
import DiffusionMesh.Proofs.Mesh.Links
import DiffusionMesh.Proofs.Mesh.Concord
import DiffusionMesh.Proofs.Mesh.Headway
import DiffusionMesh.Proofs.Mesh.Wiring
import DiffusionMesh.Proofs.Mesh.Delivery
import DiffusionMesh.Proofs.Grid.Lattice
import DiffusionMesh.Proofs.Mesh.Layout
import DiffusionMesh.Proofs.Mesh.Blueprint
import DiffusionMesh.Proofs.Mesh.Accounts
import DiffusionMesh.Proofs.Mesh.Atomicity
import DiffusionMesh.Proofs.Mesh.Steps
import DiffusionMesh.Proofs.Mesh.Runs
import DiffusionMesh.Proofs.Mesh.Skew
import DiffusionMesh.Proofs.Mesh.Progress
import DiffusionMesh.Proofs.Image.Mosaic
import DiffusionMesh.Proofs.Mesh.Emission
import DiffusionMesh.Proofs.Mesh.Reports
import DiffusionMesh.Proofs.Mesh.Settling
import DiffusionMesh.Proofs.Mesh.Refinement
import DiffusionMesh.Proofs.Mesh.Totals
import DiffusionMesh.Proofs.Mesh.Ports
import DiffusionMesh.Proofs.Mesh.Construction
import DiffusionMesh.Proofs.Tile.Range
import DiffusionMesh.Proofs.Mesh.March
import DiffusionMesh.Proofs.Mesh.Bounds
import DiffusionMesh.Proofs.Tile.Writes
import DiffusionMesh.Proofs.Tile.Stencil
import DiffusionMesh.Proofs.Mesh.Shape
import DiffusionMesh.Proofs.Command.EndToEnd
import DiffusionMesh.Proofs.Solver.Loops
import DiffusionMesh.Proofs.Solver.Recurrence
import DiffusionMesh.Proofs.Solver.Comparison
import DiffusionMesh.Proofs.Solver.Reach
import DiffusionMesh.Proofs.Solver.Symmetry
import DiffusionMesh.Proofs.Grid.Places
import DiffusionMesh.Proofs.Settings.Validation
import DiffusionMesh.Proofs.Settings.Reading
import DiffusionMesh.Proofs.Settings.Layering
import DiffusionMesh.Proofs.Settings.Sources
import DiffusionMesh.Proofs.Image.Completeness
import DiffusionMesh.Proofs.Image.Formats
import DiffusionMesh.Proofs.Image.Reading
import DiffusionMesh.Proofs.Image.Difference
import DiffusionMesh.Proofs.Image.Writing
import DiffusionMesh.Proofs.Command.Verbosity
import DiffusionMesh.Proofs.Command.Precedence

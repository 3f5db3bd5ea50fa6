/-
# What a command prints

A report is made of lines. Two of them depend on more than the configuration: how long a run took,
and how many of its frames arrived early.
-/

import DiffusionMesh.Failure
import DiffusionMesh.Mesh.Run

namespace DiffusionMesh
namespace Command

/-- A line of a report. -/
inductive Line where
  | plain (text : String)
  | elapsed (iterations : UInt32)
  | frames (sent early : Nat)
deriving DecidableEq, Repr

/-- Why a command fails. -/
inductive Complaint where
  | failure (cause : Failure)
  /-- The effective settings cannot be written as a document. -/
  | unwritableSettings
  /-- The arguments make no command. -/
  | misuse
deriving DecidableEq, Repr

/-- The words for a complaint. -/
def Complaint.message : Complaint → String
  | .failure cause => cause.message
  | .unwritableSettings => "Configuration error: out-of-range value for u64 type"
  | .misuse => "invalid arguments, try '--help'"

/-- The exit status of a command that fails. A link that cannot be made and a key that counts back
beyond the start of its sequence abort the program. -/
def Complaint.exitStatus : Complaint → UInt32
  | .failure cause => if cause.aborts then 101 else 1
  | .unwritableSettings => 1
  | .misuse => 2

/-- What a command did: the lines it printed, the file it wrote, and why it failed, if it did. -/
structure Report where
  lines : List Line := []
  written : Option (String × Array UInt8) := none
  complaint : Option Complaint := none
deriving DecidableEq, Repr

/-- The exit status of a command. -/
def Report.exitStatus (r : Report) : UInt32 := r.complaint.elim 0 Complaint.exitStatus

/-- What a command prints about its failure. -/
def Report.errorText (r : Report) : String := r.complaint.elim "" fun c => s!"Error: {c.message}\n"

/-- A heading. -/
def heading (text : String) : Line := .plain ("→ " ++ text)

/-- A fact under a heading. -/
def fact (text : String) : Line := .plain ("  • " ++ text)

/-- Something that has been done. -/
def achievement (text : String) : Line := .plain ("  ✓ " ++ text)

/-- A length of time in the greatest unit that it reaches, with three decimal places. -/
def timeText (nanoseconds : Nat) : String :=
  if 1000000000 ≤ nanoseconds then Text.fixedPlaces 3 false nanoseconds 1000000000 ++ "s"
  else if 1000000 ≤ nanoseconds then Text.fixedPlaces 3 false nanoseconds 1000000 ++ "ms"
  else if 1000 ≤ nanoseconds then Text.fixedPlaces 3 false nanoseconds 1000 ++ "µs"
  else Text.fixedPlaces 3 false nanoseconds 1 ++ "ns"

/-- The text of a line, for a run that took so long. -/
def Line.text (nanoseconds : Nat) : Line → String
  | .plain text => text
  | .elapsed iterations =>
    let seconds := UInt64.ofNat (nanoseconds / 1000000000)
    let rate := Outcome.rate iterations seconds (nanoseconds % 1000000000)
    s!"  • Elapsed: {timeText nanoseconds} ({rate.fixedPlaces 1} iterations/s)"
  | .frames sent early => s!"  • Frames: {sent} sent, {early} early"

end Command
end DiffusionMesh

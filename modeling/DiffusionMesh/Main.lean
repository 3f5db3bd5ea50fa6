/-
# The program

Gathers what a command depends on, performs it, writes its file and prints its report.
-/

import DiffusionMesh.Command.Perform

namespace DiffusionMesh
namespace Command

/-- The variables of the environment, as the system lists them for this process. -/
def environmentVariables : IO (List (String × String)) := do
  try
    let text ← IO.FS.readFile "/proc/self/environ"
    return (text.splitOn "\x00").filterMap fun entry =>
      match entry.toList.dropWhile (· != '=') with
      | '=' :: value =>
        some (String.ofList (entry.toList.takeWhile (· != '=')), String.ofList value)
      | _ => none
  catch _ => return []

/-- The texts of those of the files that can be read. -/
def readableFiles (paths : List String) : IO (List (String × String)) :=
  paths.filterMapM fun (path : String) => do
    try return some (path, ← IO.FS.readFile path)
    catch _ => return none

/-- Why a file could not be written. -/
def writeFaultOf : IO.Error → WriteFault
  | .noFileOrDirectory _ _ _ => .notFound
  | .inappropriateType _ 21 _ => .isDirectory
  | .inappropriateType _ 20 _ => .notDirectory
  | .resourceExhausted _ 28 _ => .noSpace
  | .invalidArgument _ 36 _ => .nameTooLong
  | e => .other (toString e)

/-- Writes the file of a report. -/
def writeFile (report : Report) : IO (Option WriteFault) := do
  match report.written with
  | none => return none
  | some (path, bytes) =>
    try
      IO.FS.withFile path .write fun file => do
        file.write ⟨bytes⟩
        file.flush
      return none
    catch e => return some (writeFaultOf e)

/-- Performs a command line, and gives its exit status. -/
def performAndPrint (args : List String) : IO UInt32 := do
  let request := Request.ofArguments args
  let files ← readableFiles (request.config?.elim [] Settings.candidates)
  let surroundings : Surroundings :=
    { files := fun path => files.lookup path
      environment := ← environmentVariables
      create := fun _ => .ok () }
  let start ← IO.monoNanosNow
  let report ← IO.lazyPure fun _ => request.perform surroundings
  let elapsed := (← IO.monoNanosNow) - start
  let report := match ← writeFile report with
    | none => report
    | some fault => request.perform { surroundings with create := fun _ => .error fault }
  for line in report.lines do
    IO.println (line.text elapsed)
  IO.eprint report.errorText
  return report.exitStatus

end Command
end DiffusionMesh

/-- The program. -/
def main (args : List String) : IO UInt32 := DiffusionMesh.Command.performAndPrint args

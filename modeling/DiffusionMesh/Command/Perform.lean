/-
# Performing a command line

A command line is read into a request, and the request is performed. Everything that a command
depends on is in its arguments and its surroundings, and everything it does is in its report.
-/

import DiffusionMesh.Command.Help
import DiffusionMesh.Command.Inspect

namespace DiffusionMesh
namespace Command

/-- The version of the program. -/
def programVersion : String := "0.1.0"

/-- The names of the commands, as a shell takes them. -/
def completionsFor : Shell → String
  | .bash => "complete -W \"run inspect completions help\" heatmesh"
  | .elvish =>
    "set edit:completion:arg-completer[heatmesh] = " ++
      "\x7b|@_| put run inspect completions help \x7d"
  | .fish => "complete -c heatmesh -f -a \"run inspect completions help\""
  | .powershell =>
    "Register-ArgumentCompleter -Native -CommandName heatmesh -ScriptBlock " ++
      "\x7b 'run', 'inspect', 'completions', 'help' \x7d"
  | .zsh => "compctl -k \"(run inspect completions help)\" heatmesh"

/-- Performs a command. -/
def Invocation.perform (s : Surroundings) (i : Invocation) : Report :=
  match i.task with
  | .run options => performRun s i.verbose i.quiet options
  | .inspect options => performInspect s options
  | .completions shell => { lines := [.plain (completionsFor shell)] }

/-- Performs what a command line asks for. -/
def Request.perform (s : Surroundings) : Request → Report
  | .command invocation => invocation.perform s
  | .help topic long => { lines := (topic.helpLines long).map .plain }
  | .version name => { lines := [.plain (name ++ " " ++ programVersion)] }
  | .misuse => { complaint := some .misuse }

/-- The file of settings that a request names. -/
def Request.config? : Request → Option String
  | .command ⟨_, _, .run options⟩ => options.config
  | .command ⟨_, _, .inspect options⟩ => options.config
  | _ => none

end Command
end DiffusionMesh

/-
# What the user asks for

| command | options |
| --- | --- |
| `run` | `--config`, `--cells`, `--iterations`, `--message-words`, `--output`, `--format`, `--verify` |
| `inspect` | `--cell`, `--config`, `--cells` |
| `completions` | the name of a shell |
| `help` | perhaps the name of a command |

`--verbose`, `--quiet`, `--help` and `--version` are understood before and behind the name of the
command. No option is given twice in one place.
-/

import DiffusionMesh.Command.Grammar
import DiffusionMesh.Image.Format
import DiffusionMesh.Text.Numeral

namespace DiffusionMesh
namespace Command

/-- A program that completes command lines. -/
inductive Shell where
  | bash
  | elvish
  | fish
  | powershell
  | zsh
deriving DecidableEq, Repr

/-- Settings that the user gives on the command line. -/
structure Overrides where
  cells : Option UInt32 := none
  iterations : Option UInt32 := none
  messageWords : Option UInt64 := none
deriving DecidableEq, Repr

/-- What a run does besides running. -/
structure RunOptions where
  config : Option String := none
  overrides : Overrides := {}
  output : Option String := none
  format : ImageFormat := .ppm
  verify : Bool := false
deriving DecidableEq, Repr

/-- The cell to look at. -/
structure InspectOptions where
  cell : UInt32
  config : Option String := none
  cells : Option UInt32 := none
deriving DecidableEq, Repr

/-- A command with its options. -/
inductive Task where
  | run (options : RunOptions)
  | inspect (options : InspectOptions)
  | completions (shell : Shell)
deriving DecidableEq, Repr

/-- A command, and how much it is to say. -/
structure Invocation where
  verbose : Bool
  quiet : Bool
  task : Task
deriving DecidableEq, Repr

/-- What a help page is about. -/
inductive Topic where
  | program
  | run
  | inspect
  | completions
  | help
deriving DecidableEq, Repr

/-- What a command line asks for. -/
inductive Request where
  | command (invocation : Invocation)
  | help (topic : Topic) (long : Bool)
  /-- The version, under the name of the program or of one of its commands. -/
  | version (name : String)
  | misuse
deriving DecidableEq, Repr

/-- What has been read of the arguments of a command. -/
structure Draft where
  verbose : Bool := false
  quiet : Bool := false
  config : Option String := none
  cell : Option UInt32 := none
  cells : Option UInt32 := none
  iterations : Option UInt32 := none
  messageWords : Option UInt64 := none
  output : Option String := none
  format : Option ImageFormat := none
  verify : Bool := false
  shell : Option Shell := none
deriving DecidableEq, Repr

/-! ### Values -/

/-- A number of 32 bits without sign. A sign may be written. -/
def number32? (s : String) : Option UInt32 := do
  let n ← Text.signed? s
  guard (0 ≤ n && n < UInt32.size)
  return UInt32.ofNat n.toNat

/-- A number of 64 bits without sign. A plus may be written. -/
def number64? (s : String) : Option UInt64 := do
  let n ← Text.unsigned? s
  guard (n < UInt64.size)
  return UInt64.ofNat n

/-- A path is not empty. -/
def path? (s : String) : Option String := if s = "" then none else some s

/-- The format with a name. -/
def format? (s : String) : Option ImageFormat :=
  if s = "ppm" then some .ppm else if s = "csv" then some .csv else none

/-- The shell with a name. -/
def shell? (s : String) : Option Shell :=
  match s with
  | "bash" => some .bash
  | "elvish" => some .elvish
  | "fish" => some .fish
  | "powershell" => some .powershell
  | "zsh" => some .zsh
  | _ => none

/-- Puts a value into a draft that has none yet. -/
def once {α : Type} (get : Draft → Option α) (read : String → Option α) (put : α → Draft → Draft) :
    Setter Draft :=
  fun text draft => if (get draft).isSome then none else (read text).map (put · draft)

/-- Sets a mark in a draft that does not have it yet. -/
def mark (get : Draft → Bool) (put : Draft → Draft) : Action Draft :=
  .flag fun draft => if get draft then none else some (put draft)

/-! ### Grammars -/

/-- The options of every command. -/
def sharedChoices : List (Choice Draft) :=
  [⟨"verbose", some 'v', mark (·.verbose) ({ · with verbose := true })⟩,
    ⟨"quiet", some 'q', mark (·.quiet) ({ · with quiet := true })⟩,
    ⟨"help", some 'h', .help⟩,
    ⟨"version", some 'V', .version⟩]

/-- `--config`. -/
def configChoice : Choice Draft :=
  ⟨"config", some 'c', .value (once (·.config) path? fun p d => { d with config := some p })⟩

/-- `--cells`. -/
def cellsChoice : Choice Draft :=
  ⟨"cells", none, .value (once (·.cells) number32? fun n d => { d with cells := some n })⟩

/-- The arguments of `run`. -/
def runGrammar : Grammar Draft where
  choices := sharedChoices ++
    [configChoice, cellsChoice,
      ⟨"iterations", some 'i',
        .value (once (·.iterations) number32? fun n d => { d with iterations := some n })⟩,
      ⟨"message-words", some 'm',
        .value (once (·.messageWords) number64? fun n d => { d with messageWords := some n })⟩,
      ⟨"output", some 'o', .value (once (·.output) path? fun p d => { d with output := some p })⟩,
      ⟨"format", some 'f', .value (once (·.format) format? fun f d => { d with format := some f })⟩,
      ⟨"verify", none, mark (·.verify) ({ · with verify := true })⟩]

/-- The arguments of `inspect`. -/
def inspectGrammar : Grammar Draft where
  choices := sharedChoices ++
    [configChoice, cellsChoice,
      ⟨"cell", none, .value (once (·.cell) number32? fun n d => { d with cell := some n })⟩]

/-- The arguments of `completions`. -/
def completionsGrammar : Grammar Draft where
  choices := sharedChoices
  plain := once (·.shell) shell? fun s d => { d with shell := some s }

/-- The names of the commands. -/
def commandNames : List String := ["run", "inspect", "completions", "help"]

/-- The arguments before the name of a command. -/
def programGrammar : Grammar Draft where
  choices := sharedChoices
  subcommands := commandNames

/-! ### Requests -/

/-- What a draft for a command asks for, if it is complete. -/
def Draft.task? (d : Draft) (name : String) : Option Task :=
  match name with
  | "run" => some <| .run
    { config := d.config, overrides := ⟨d.cells, d.iterations, d.messageWords⟩,
      output := d.output, format := d.format.getD .ppm, verify := d.verify }
  | "inspect" => d.cell.map fun cell => .inspect ⟨cell, d.config, d.cells⟩
  | _ => d.shell.map .completions

/-- The help page about the command with a name. -/
def topicOf? (name : String) : Option Topic :=
  match name with
  | "run" => some .run
  | "inspect" => some .inspect
  | "completions" => some .completions
  | "help" => some .help
  | _ => none

/-- The arguments of the command with a name. -/
def grammarOf (name : String) : Grammar Draft :=
  match name with
  | "run" => runGrammar
  | "inspect" => inspectGrammar
  | _ => completionsGrammar

/-- The name of the program. -/
def programName : String := "heatmesh"

/-- Reads the arguments behind the name of a command. -/
def requestOf (general : Draft) (name : String) (args : List String) : Request :=
  match (grammarOf name).read none {} args with
  | .done draft =>
    match draft.task? name with
    | some task =>
      .command ⟨general.verbose || draft.verbose, general.quiet || draft.quiet, task⟩
    | none => .misuse
  | .help long => (topicOf? name).elim .misuse (.help · long)
  | .version => .version (programName ++ "-" ++ name)
  | .subcommand _ _ _ => .misuse
  | .misuse => .misuse

/-- Reads a command line. -/
def Request.ofArguments (args : List String) : Request :=
  match programGrammar.read none {} args with
  | .subcommand _ "help" topic =>
    match topic with
    | [] => .help .program true
    | [name] => (topicOf? name).elim .misuse (.help · true)
    | _ => .misuse
  | .subcommand general name rest => requestOf general name rest
  | .help long => .help .program long
  | .version => .version programName
  | .done _ => .misuse
  | .misuse => .misuse

end Command
end DiffusionMesh

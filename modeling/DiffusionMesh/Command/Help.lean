/-
# Help pages

A page says what a command is for, how it is called, and what may stand behind its name.

| form | every entry |
| --- | --- |
| short | one line: the label, and the description in a column of its own, with the default and the possible values in brackets |
| long | the label, and below it the description, a list of the possible values, and the default |

Only a page that describes possible values has a long form; any other is always short.
-/

import DiffusionMesh.Command.Invocation

namespace DiffusionMesh
namespace Command

/-- A value that an argument may take. -/
structure PossibleValue where
  name : String
  description : Option String := none
deriving DecidableEq, Repr

/-- One entry of a page. -/
structure HelpEntry where
  label : String
  description : String
  default : Option String := none
  values : List PossibleValue := []
deriving DecidableEq, Repr

/-- A help page: what the command is for, how it is called, and entries under headings. -/
structure HelpPage where
  purpose : String
  call : String
  sections : List (String × List HelpEntry)
deriving DecidableEq, Repr

/-! ### Layout -/

namespace HelpEntry

variable (e : HelpEntry)

/-- The default in brackets, if there is one. -/
def defaultRemark : List String := e.default.toList.map fun d => s!"[default: {d}]"

/-- The possible values in brackets, if there are any. -/
def valuesRemark : List String :=
  if e.values.isEmpty then []
  else ["[possible values: " ++ ", ".intercalate (e.values.map (·.name)) ++ "]"]

/-- The entry in one line, with labels of so many characters. -/
def shortLine (width : Nat) : String :=
  let blanks := String.ofList (List.replicate (width - e.label.length) ' ')
  let remarks := e.description :: e.defaultRemark ++ e.valuesRemark
  "  " ++ e.label ++ blanks ++ "  " ++ " ".intercalate remarks

/-- Whether a possible value has a description. -/
def hasDetails : Bool := e.values.any (·.description.isSome)

/-- The lines of the list of possible values. -/
def valueList : List String :=
  if e.hasDetails then
    "" :: "Possible values:" ::
      e.values.map fun v => s!"- {v.name}" ++ v.description.elim "" (": " ++ ·)
  else []

/-- The entry in lines below its label. -/
def longLines : List String :=
  let remarks := e.defaultRemark ++ (if e.hasDetails then [] else e.valuesRemark)
  let below := e.description :: e.valueList ++ remarks.flatMap (["", ·])
  ("  " ++ e.label) :: below.map fun line => if line = "" then "" else "          " ++ line

end HelpEntry

/-- The entries under a heading, the descriptions in one column. -/
def shortSection (entries : List HelpEntry) : List String :=
  let width := entries.foldl (fun w e => max w e.label.length) 0
  entries.map (·.shortLine width)

/-- The entries under a heading, with empty lines between them. -/
def longSection (entries : List HelpEntry) : List String :=
  ([""].intercalate (entries.map (·.longLines)))

namespace HelpPage

variable (p : HelpPage)

/-- Whether the page has a long form. -/
def hasLongForm : Bool := p.sections.any fun (_, entries) => entries.any (·.hasDetails)

/-- The lines of the page. -/
def lines (long : Bool) : List String :=
  let body (entries : List HelpEntry) : List String :=
    if long && p.hasLongForm then longSection entries else shortSection entries
  [p.purpose, "", "Usage: " ++ p.call] ++
    p.sections.flatMap fun (heading, entries) => "" :: (heading ++ ":") :: body entries

end HelpPage

/-! ### The pages -/

/-- An entry without values. -/
def plainEntry (label description : String) : HelpEntry := { label, description }

/-- The label of an option without a letter. -/
def noLetter (name : String) : String := "    " ++ name

/-- `--verbose`. -/
def verboseEntry : HelpEntry := plainEntry "-v, --verbose" "Enable verbose output"

/-- `--quiet`. -/
def quietEntry : HelpEntry := plainEntry "-q, --quiet" "Suppress all output except errors"

/-- `--config`. -/
def configEntry : HelpEntry := plainEntry "-c, --config <CONFIG>" "TOML configuration file"

/-- `--cells`. -/
def cellsEntry : HelpEntry :=
  plainEntry (noLetter "--cells <CELLS>") "Number of cells (power of two with even log2)"

/-- `--version`. -/
def versionEntry : HelpEntry := plainEntry "-V, --version" "Print version"

/-- The entries at the end of a page that has one form. -/
def closingEntries : List HelpEntry := [plainEntry "-h, --help" "Print help", versionEntry]

/-- The page about the program. -/
def programPage : HelpPage where
  purpose := "Command-line host controller for heatmesh simulations"
  call := "heatmesh [OPTIONS] <COMMAND>"
  sections :=
    [("Commands",
        [plainEntry "run" "Run a mesh and collect the heat map",
          plainEntry "inspect" "Show a cell's position, neighbors and global origin",
          plainEntry "completions" "Generate shell completions",
          plainEntry "help" "Print this message or the help of the given subcommand(s)"]),
      ("Options", [verboseEntry, quietEntry] ++ closingEntries)]

/-- The page about `run`, in its short or its long form. -/
def runPage (long : Bool) : HelpPage where
  purpose := "Run a mesh and collect the heat map"
  call := "heatmesh run [OPTIONS]"
  sections :=
    [("Options",
        [configEntry, verboseEntry, cellsEntry, quietEntry,
          plainEntry "-i, --iterations <ITERATIONS>" "Iterations to run",
          plainEntry "-m, --message-words <MESSAGE_WORDS>"
            "Message length in 32-bit words (subgrid side + 1)",
          plainEntry "-o, --output <OUTPUT>" "Output file for the heat map",
          { label := "-f, --format <FORMAT>", description := "Output format",
            default := some "ppm",
            values := [⟨"ppm", some "Binary PPM image"⟩, ⟨"csv", some "`row,col,temp` lines"⟩] },
          plainEntry (noLetter "--verify") "Compare the result against the sequential solver",
          plainEntry "-h, --help"
            (if long then "Print help (see a summary with '-h')"
              else "Print help (see more with '--help')"),
          versionEntry])]

/-- The page about `inspect`. -/
def inspectPage : HelpPage where
  purpose := "Show a cell's position, neighbors and global origin"
  call := "heatmesh inspect [OPTIONS] --cell <CELL>"
  sections :=
    [("Options",
        [plainEntry (noLetter "--cell <CELL>") "Cell identifier", verboseEntry, configEntry,
          quietEntry, cellsEntry] ++ closingEntries)]

/-- The page about `completions`. -/
def completionsPage : HelpPage where
  purpose := "Generate shell completions"
  call := "heatmesh completions [OPTIONS] <SHELL>"
  sections :=
    [("Arguments",
        [{ label := "<SHELL>", description := "Shell to generate completions for",
           values := ["bash", "elvish", "fish", "powershell", "zsh"].map (⟨·, none⟩) }]),
      ("Options", [verboseEntry, quietEntry] ++ closingEntries)]

/-- The page about `help`. -/
def helpPage : HelpPage where
  purpose := "Print this message or the help of the given subcommand(s)"
  call := "heatmesh help [COMMAND]..."
  sections := [("Arguments", [plainEntry "[COMMAND]..." "Print help for the subcommand(s)"])]

/-- The lines of the page about a topic, in its short or its long form. -/
def Topic.helpLines (long : Bool) : Topic → List String
  | .program => programPage.lines long
  | .run => (runPage long).lines long
  | .inspect => inspectPage.lines long
  | .completions => completionsPage.lines long
  | .help => helpPage.lines long

end Command
end DiffusionMesh

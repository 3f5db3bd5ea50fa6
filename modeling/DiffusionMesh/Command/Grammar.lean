/-
# Reading arguments

A grammar lists the options of a command; a draft of what the user wants is filled in while the
arguments are read from left to right.

| argument | meaning |
| --- | --- |
| `--name`, `-n` | an option; `-ab` stands for `-a -b` |
| `--name=value`, `-n=value`, `-nvalue` | an option with its value |
| `--name value`, `-n value` | the same; the value does not start with `-`, unless it is `-` alone |
| `--` | all further arguments are plain |
| anything else | the name of a subcommand, or a plain argument |

Reading ends at the first argument that is wrong, that asks for help or the version, or that
names a subcommand.
-/

namespace DiffusionMesh
namespace Command

/-- Puts a value into a draft; nothing if the value is refused. -/
abbrev Setter (δ : Type) := String → δ → Option δ

/-- What an option does. -/
inductive Action (δ : Type) where
  | flag (set : δ → Option δ)
  | value (set : Setter δ)
  | help
  | version

/-- An option: its name, perhaps a letter, and what it does. -/
structure Choice (δ : Type) where
  name : String
  letter : Option Char := none
  action : Action δ

/-- What a command understands. -/
structure Grammar (δ : Type) where
  choices : List (Choice δ)
  plain : Setter δ := fun _ _ => none
  subcommands : List String := []

/-- What the arguments of a command say. -/
inductive Reading (δ : Type) where
  | done (draft : δ)
  | subcommand (draft : δ) (name : String) (rest : List String)
  /-- A help page, in its long form if it was asked for by name. -/
  | help (long : Bool)
  | version
  | misuse

/-- Where reading stands behind an argument: it goes on, perhaps with a value, or it ends. -/
inductive Progress (δ : Type) where
  | next (awaited : Option (Setter δ)) (draft : δ)
  | stop (reading : Reading δ)

namespace Grammar

variable {δ : Type} (g : Grammar δ)

/-- Goes on with a changed draft, unless the change is refused. -/
def proceed (draft? : Option δ) : Progress δ := draft?.elim (.stop .misuse) (.next none)

/-- Reads an option that is written with its name. -/
def readName (name : List Char) (value : Option (List Char)) (draft : δ) : Progress δ :=
  match g.choices.find? (·.name = String.ofList name), value with
  | none, _ => .stop .misuse
  | some ⟨_, _, .value set⟩, some value => proceed (set (String.ofList value) draft)
  | some ⟨_, _, .value set⟩, none => .next (some set) draft
  | some _, some _ => .stop .misuse
  | some ⟨_, _, .flag set⟩, none => proceed (set draft)
  | some ⟨_, _, .help⟩, none => .stop (.help true)
  | some ⟨_, _, .version⟩, none => .stop .version

/-- Reads options that are written with their letters. The rest behind a letter that takes a
value is the value. -/
def readLetters : List Char → δ → Progress δ
  | [], draft => .next none draft
  | letter :: rest, draft =>
    match g.choices.find? (·.letter = some letter) with
    | none => .stop .misuse
    | some ⟨_, _, .flag set⟩ =>
      match set draft with
      | some draft => readLetters rest draft
      | none => .stop .misuse
    | some ⟨_, _, .value set⟩ =>
      match rest with
      | [] => .next (some set) draft
      | '=' :: value => proceed (set (String.ofList value) draft)
      | value => proceed (set (String.ofList value) draft)
    | some ⟨_, _, .help⟩ => .stop (.help false)
    | some ⟨_, _, .version⟩ => .stop .version

/-- Whether an argument is written like an option. -/
def looksLikeOption (arg : String) : Bool := arg.startsWith "-" && arg != "-"

/-- Reads one argument. -/
def readArgument (arg : String) (draft : δ) : Progress δ :=
  if looksLikeOption arg then
    match arg.toList with
    | '-' :: '-' :: body =>
      let name := body.takeWhile (· != '=')
      match body.dropWhile (· != '=') with
      | '=' :: value => g.readName name (some value) draft
      | _ => g.readName name none draft
    | _ :: letters => g.readLetters letters draft
    | [] => .stop .misuse
  else proceed (g.plain arg draft)

/-- Reads arguments behind `--`. -/
def readPlain (draft : δ) : List String → Reading δ
  | [] => .done draft
  | arg :: rest =>
    match g.plain arg draft with
    | some draft => readPlain draft rest
    | none => .misuse

/-- Reads arguments. If an option awaits its value, the next argument is the value. -/
def read (awaited : Option (Setter δ)) (draft : δ) : List String → Reading δ
  | [] => if awaited.isSome then .misuse else .done draft
  | arg :: rest =>
    match awaited with
    | some set =>
      if looksLikeOption arg then .misuse
      else
        match set arg draft with
        | some draft => read none draft rest
        | none => .misuse
    | none =>
      if g.subcommands.contains arg then .subcommand draft arg rest
      else if arg = "--" then g.readPlain draft rest
      else
        match g.readArgument arg draft with
        | .next awaited draft => read awaited draft rest
        | .stop reading => reading

end Grammar
end Command
end DiffusionMesh

/-
# What can go wrong while settings are loaded

A source may be missing or malformed, a key may lead nowhere, and a value may be of the wrong
kind. A complaint about a value says what was found, what was expected, at which key and in which
source, as far as each of these is known.
-/

import DiffusionMesh.Text.Binary64
import DiffusionMesh.Text.Quoted

namespace DiffusionMesh
namespace Settings

/-- What stood where something else was expected. -/
inductive Found where
  /-- A value that was to become a number. -/
  | text (s : String)
  | signed (n : Int)
  | unsigned (n : Nat)
  | nothing
  | sequence
  | table
  /-- A plain value that was to become a group of settings. -/
  | boolean (b : Bool)
  | integer (n : Int)
  | float (x : Text.Binary64)
deriving DecidableEq, Repr

/-- The words for what stood there. -/
def Found.describe : Found → String
  | .text s => "string " ++ Text.quoted s
  | .signed n => s!"64-bit integer `{n}`"
  | .unsigned n => s!"64-bit unsigned integer `{n}`"
  | .nothing => "unit value"
  | .sequence => "sequence"
  | .table => "map"
  | .boolean b => s!"boolean `{b}`"
  | .integer n => s!"integer `{n}`"
  | .float x => s!"floating point `{x.shortest}`"

/-- What a setting, or a whole document, has to be. -/
inductive Wanted where
  | table
  | integer
  | unsigned64
  | unsigned32
  | signed32
  | boundary
deriving DecidableEq, Repr

/-- The words for what something has to be. -/
def Wanted.describe : Wanted → String
  | .table => "a map"
  | .integer => "an integer"
  | .unsigned64 => "an unsigned 64 bit or less integer"
  | .unsigned32 => "an unsigned 32 bit integer"
  | .signed32 => "an signed 32 bit integer"
  | .boundary => "struct BoundaryConfig"

/-- A value of the wrong kind: what was found, what was wanted, the key and the source. -/
structure WrongKind where
  found : Found
  wanted : Wanted
  key : Option String
  origin : Option String
deriving DecidableEq, Repr

/-- The source at the end of a complaint, if it has a name. -/
def inOrigin (origin : Option String) : String := origin.elim "" fun o => s!" in {o}"

/-- The whole complaint. -/
def WrongKind.message (w : WrongKind) : String :=
  let key := w.key.elim "" fun k => s!" for key `{k}`"
  s!"invalid type: {w.found.describe}, expected {w.wanted.describe}" ++ key ++ inOrigin w.origin

/-- Why settings could not be loaded. -/
inductive LoadFault where
  /-- No file of that name. -/
  | missing (path : String)
  /-- The text is not a TOML document. -/
  | malformed
  /-- The document as a whole is a text. -/
  | noTable (text : String) (origin : Option String)
  | wrongKind (w : WrongKind)
  /-- A key asks for a place before the start of a sequence, or for one beyond its room. -/
  | outOfReach (key : String)
deriving DecidableEq, Repr

/-- The words for the reason. What is wrong with a document as a whole names its source twice: as
the source of the value, and as the source that could not be read. -/
def LoadFault.message : LoadFault → String
  | .missing path => s!"configuration file \"{path}\" not found"
  | .malformed => "TOML parse error"
  | .noTable text origin =>
    (⟨.text text, .table, none, origin⟩ : WrongKind).message ++ inOrigin origin
  | .wrongKind w => w.message
  | .outOfReach key => s!"key `{key}` asks for a place that no sequence has"

end Settings
end DiffusionMesh

/-
# Values of a TOML document

A document is a table: keys with values, in the order of the text. Dates and times are kept as
their normal text.
-/

import DiffusionMesh.Text.Binary64

namespace DiffusionMesh
namespace Toml

/-- A value of a document. -/
inductive Value where
  | text (s : String)
  | integer (n : Int)
  | float (x : Text.Binary64)
  | boolean (b : Bool)
  | array (items : List Value)
  | table (entries : List (String × Value))
deriving Repr, Inhabited

/-- The keys of a table with their values. -/
abbrev Entries := List (String × Value)

end Toml
end DiffusionMesh

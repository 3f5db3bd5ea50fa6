/-
# Settings as a TOML document

Every setting has a line, and the temperatures beyond the sides are a table of their own. The
format has no whole numbers beyond 64 bits with sign, so greater settings cannot be written.
-/

import DiffusionMesh.Settings.Config

namespace DiffusionMesh
namespace Config

variable (c : Config)

/-- One line of a document. -/
def settingLine (key value : String) : String := key ++ " = " ++ value ++ "\n"

/-- Whether a document can hold all settings. -/
def isWritable : Bool :=
  c.messageWords < 0x8000000000000000 && c.linkCapacity < 0x8000000000000000

/-- The document of these settings, if there is one. -/
def document? : Option String :=
  if c.isWritable then
    some <| String.join <|
      [settingLine "cells" (toString c.cells),
        settingLine "message_words" (toString c.messageWords),
        settingLine "iterations" (toString c.iterations),
        settingLine "link_capacity" (toString c.linkCapacity),
        "\n[boundary]\n"] ++
      c.boundary.toList.map fun (side, degrees) => settingLine side.key (toString degrees)
  else none

end Config
end DiffusionMesh

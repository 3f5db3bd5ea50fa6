/-
# Quoted text

Text is shown between double quotes, with escapes that keep it on one line:

| character | shown as |
| --- | --- |
| `"`, `\` | behind a backslash |
| tab, line feed, carriage return, NUL | `\t`, `\n`, `\r`, `\0` |
| another character that does not show by itself | `\u{…}`, its number in hexadecimal |
| any other | itself |
-/

import DiffusionMesh.Text.Hidden

namespace DiffusionMesh
namespace Text

/-- The hexadecimal digits of a number, in lower case, without leading zeros. -/
def hexDigits (n : Nat) : String := String.ofList (Nat.toDigits 16 n)

/-- One character as it is shown between quotes. -/
def quotedChar (c : Char) : String :=
  if c = '"' then "\\\""
  else if c = '\\' then "\\\\"
  else if c = '\t' then "\\t"
  else if c = '\n' then "\\n"
  else if c = '\r' then "\\r"
  else if c.toNat = 0 then "\\0"
  else if isHidden c then "\\u\x7b" ++ hexDigits c.toNat ++ "\x7d"
  else c.toString

/-- Text between double quotes, escaped. -/
def quoted (s : String) : String := "\"" ++ String.join (s.toList.map quotedChar) ++ "\""

end Text
end DiffusionMesh

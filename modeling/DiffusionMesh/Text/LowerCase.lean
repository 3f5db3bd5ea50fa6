/-
# Lower case of names

Names are compared without regard to case. All names that have a meaning consist of ASCII
letters, and the only character beyond ASCII with such a letter as its lower case is the Kelvin
sign. So a case map that knows these characters tells the same names apart as one for all
scripts.
-/

namespace DiffusionMesh
namespace Text

/-- The lower case of an ASCII letter and of the Kelvin sign; any other character as it is. -/
def lowerChar (c : Char) : Char := if c = '\u212A' then 'k' else c.toLower

/-- A name in lower case. -/
def lowerCase (s : String) : String := s.map lowerChar

end Text
end DiffusionMesh

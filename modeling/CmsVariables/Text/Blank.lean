import CmsVariables.Text.CodePoints

/-!
# Blank and word characters

The two classes a variable name is written with: the characters of the property White_Space, and
the word characters, which are ASCII letters, digits and the underscore.
-/

namespace CmsVariables.Text

/-- The characters with the property White_Space. -/
def blankPoints : CodePoints := [
  (0x9, 0xD), (0x20, 0x20), (0x85, 0x85), (0xA0, 0xA0), (0x1680, 0x1680), (0x2000, 0x200A),
  (0x2028, 0x2029), (0x202F, 0x202F), (0x205F, 0x205F), (0x3000, 0x3000)]

/-- White_Space, which also counts line ends and the spaces outside ASCII. -/
def isBlank (c : Char) : Bool := blankPoints.has c

/-- An ASCII letter, digit or underscore. -/
def isWord (c : Char) : Bool := c.isAlphanum || c == '_'

end CmsVariables.Text

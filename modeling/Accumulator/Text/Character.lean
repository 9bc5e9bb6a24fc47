import Accumulator.Text.Alphabetic

set_option autoImplicit false

/-!
Character classes of the source text: blanks separate fields, word characters make up names, and an
identifier is a word that does not begin with a digit.
-/

namespace Accumulator.Text

/-- The code points of the Unicode property White_Space. -/
def blankRanges : List (Nat × Nat) :=
  [(0x09, 0x0D), (0x20, 0x20), (0x85, 0x85), (0xA0, 0xA0), (0x1680, 0x1680), (0x2000, 0x200A),
   (0x2028, 0x2029), (0x202F, 0x202F), (0x205F, 0x205F), (0x3000, 0x3000)]

def isBlank (c : Char) : Bool :=
  inRanges blankRanges c

/-- Letters, digits and the underscore, of ASCII only: the alphabet of identifiers. -/
def isWordChar (c : Char) : Bool :=
  c.isAlphanum || c == '_'

/-- A word that begins with a letter or an underscore. -/
def isIdentifier (text : String) : Bool :=
  match text.toList with
  | [] => false
  | c :: cs => (c.isAlpha || c == '_') && cs.all isWordChar

end Accumulator.Text

import Accumulator.Text.Numeral

set_option autoImplicit false

/-!
Texts for a terminal that must not obey them: the control characters that terminals act on are
written out.
-/

namespace Accumulator.Text

/-- The control characters of ASCII that move or change something on a terminal: bell, backspace,
form feed, escape and delete. -/
def actingControls : List Char := ['\x07', '\x08', '\x0c', '\x1b', '\x7f']

/-- A character as it is shown. The other control characters of ASCII, such as tabs, stay. -/
def escapeChar (c : Char) : List Char :=
  if actingControls.contains c then '\\' :: 'x' :: hexadecimal 2 c.toNat
  else if '\x80' ≤ c && c ≤ '\x9f' then
    ['\\', 'u', '\x7b'] ++ hexadecimal 2 c.toNat ++ ['\x7d']
  else [c]

def escape (text : String) : String := String.ofList (text.toList.flatMap escapeChar)

end Accumulator.Text

import Accumulator.Text.Numeral

set_option autoImplicit false

/-!
Instruction words: an opcode in the high eight of 32 bits and a literal in the low 24.
-/

namespace Accumulator

structure Word where
  opcode : BitVec 8
  literal : BitVec 24
deriving DecidableEq, Repr

namespace Word

/-- The word that stands between the main scope and the functions. -/
def halt : Word := ⟨0, 0⟩

def toBits (w : Word) : BitVec 32 := w.opcode ++ w.literal

def ofBits (bits : BitVec 32) : Word :=
  ⟨bits.extractLsb' 24 8, bits.extractLsb' 0 24⟩

/-- The 32 binary digits of a word. -/
def digits (w : Word) : List Char := Text.bits w.toBits

/-- The word with these binary digits, of which there must be 32. -/
def ofDigits? (digits : List Char) : Option Word :=
  if digits.length = 32 then
    (Text.readDigits 2 digits).map fun n => ofBits (BitVec.ofNat 32 n)
  else none

end Word

end Accumulator

import Accumulator.Program.Code
import Accumulator.Program.Nesting
import Accumulator.Source.Expansion

set_option autoImplicit false

/-!
Assembly: from a source text to the words of its program and the addresses of all that it names.
-/

namespace Accumulator

open Source

structure Assembly where
  layout : Layout
  words : List Word
deriving DecidableEq, Repr

/-- The program that a source text describes. -/
def Program.ofSource (text : List Char) : Except Fault Program := do
  let tokens ← Token.scan text
  let expanded ← Source.expand tokens
  Program.ofTokens expanded

namespace Assembly

def ofSource (text : List Char) : Except Fault Assembly := do
  let program ← Program.ofSource text
  let layout ← Layout.ofProgram program
  let words ← layout.code
  return ⟨layout, words⟩

end Assembly

end Accumulator

set_option autoImplicit false

/-!
The operations of the machine. An instruction word carries an opcode, which fixes one of these, and
a literal, which is its operand.
-/

namespace Accumulator

/-- The operations of the arithmetic unit. -/
inductive Arithmetic
  | add
  | sub
  | mul
  | div
  | mod
  | incr
  | decr
  | rol
  | ror
  | nand
  | nor
  | xor
deriving DecidableEq, Repr

/-- Operand and target of an arithmetic operation: the literal into W, a memory cell into W, or a
memory cell into itself. -/
inductive Transfer
  | immediate
  | toW
  | toMemory
deriving DecidableEq, Repr

/-- Where an operation finds its operand. -/
inductive Operand
  | literal
  | w
  | memory
deriving DecidableEq, Repr

inductive Condition
  | greater
  | less
  | equal
deriving DecidableEq, Repr

inductive Port
  | one
  | two
deriving DecidableEq, Repr

/-- The commands of the display. Saving and loading move a plane through memory. -/
inductive Drawing
  | clear
  | render
  | pixel
  | horizontal
  | vertical
  | rectangle
  | setFlag
  | save
  | load
deriving DecidableEq, Repr

inductive Operation
  | halt
  | nop
  | pulse
  | var
  | movLW
  | movWF
  | movFW
  | movLF
  | call
  | ret
  | retLW
  | retFW
  | goto
  | arithmetic (op : Arithmetic) (transfer : Transfer)
  | compare (condition : Condition) (operand : Operand) (skip : Fin 16)
  | write (port : Port) (operand : Operand)
  | read (port : Port) (toMemory : Bool)
  | display (drawing : Drawing) (operand : Operand)
deriving DecidableEq, Repr

/-- Whether the literal field carries an operand. -/
def Operation.takesOperand : Operation → Bool
  | .halt | .nop | .pulse | .ret => false
  | .write _ operand => operand ≠ .w
  | .read _ toMemory => toMemory
  | .display drawing _ => drawing ≠ .clear ∧ drawing ≠ .render
  | _ => true

end Accumulator

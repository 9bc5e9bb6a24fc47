import Accumulator.Instruction.Operation

set_option autoImplicit false

/-!
The arithmetic unit: operations and comparisons of W with an operand, both of 32 bits.
-/

namespace Accumulator

/-- The result of an operation, which wraps around. A quotient or a remainder by zero is zero, and
the operations of one operand take no notice of W. -/
def Arithmetic.apply : Arithmetic → BitVec 32 → BitVec 32 → BitVec 32
  | .add, w, v => w + v
  | .sub, w, v => w - v
  | .mul, w, v => w * v
  | .div, w, v => if v = 0 then 0 else w.sdiv v
  | .mod, w, v => if v = 0 then 0 else w.srem v
  | .incr, _, v => v + 1
  | .decr, _, v => v - 1
  | .rol, _, v => v.rotateLeft 1
  | .ror, _, v => v.rotateRight 1
  | .nand, w, v => ~~~(w &&& v)
  | .nor, w, v => ~~~(w ||| v)
  | .xor, w, v => w ^^^ v

/-- Whether W stands in a relation to an operand, both read as signed numbers. -/
def Condition.holds : Condition → BitVec 32 → BitVec 32 → Bool
  | .greater, w, v => v.slt w
  | .less, w, v => w.slt v
  | .equal, w, v => w == v

end Accumulator

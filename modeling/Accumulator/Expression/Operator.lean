set_option autoImplicit false

/-!
The operators of expressions, on integers held in 64 bits. An operation that leaves this range
fails; none of them wraps around, but a left shift drops the bits that it moves out of the word.
-/

namespace Accumulator.Expression

/-- Why an expression has no value. -/
inductive Fault
  | letter
  | unexpectedChar (found : Char)
  | unexpectedEnd
  | divisionByZero
  | overflow
deriving DecidableEq, Repr

def Fault.message : Fault → String
  | .letter => "letters are not allowed in an expression"
  | .unexpectedChar found => "unexpected character '" ++ found.toString ++ "'"
  | .unexpectedEnd => "unexpected end of expression"
  | .divisionByZero => "division by zero"
  | .overflow => "value out of range"

/-- The integers that fit in a signed 64-bit word. -/
def InRange (n : Int) : Prop := -0x8000000000000000 ≤ n ∧ n < 0x8000000000000000

instance (n : Int) : Decidable (InRange n) := inferInstanceAs (Decidable (_ ∧ _))

/-- The integer itself, if it fits in a signed 64-bit word. -/
def narrow (n : Int) : Except Fault Int :=
  if InRange n then .ok n else .error .overflow

/-- Signs stand before their operand and bind tighter than every operator. -/
inductive Sign
  | negative
  | complement
  | positive
deriving DecidableEq, Repr

def Sign.ofChar? : Char → Option Sign
  | '-' => some .negative
  | '~' => some .complement
  | '+' => some .positive
  | _ => none

def Sign.apply : Sign → Int → Except Fault Int
  | .negative, n => narrow (-n)
  | .complement, n => .ok (-n - 1)
  | .positive, n => .ok n

inductive Operator
  | or
  | xor
  | and
  | shiftLeft
  | shiftRight
  | add
  | sub
  | mul
  | div
  | rem
deriving DecidableEq, Repr

/-- How tightly an operator binds. Operators of one level group from the left. -/
def Operator.level : Operator → Nat
  | .or => 1
  | .xor => 2
  | .and => 3
  | .shiftLeft | .shiftRight => 4
  | .add | .sub => 5
  | .mul | .div | .rem => 6

/-- A shift amount counts bits of a 64-bit word. -/
def shiftAmount (n : Int) : Except Fault Nat :=
  if 0 ≤ n ∧ n < 64 then .ok n.toNat else .error .overflow

/-- The result of an operation on the bits of two words. -/
def bitwise (f : BitVec 64 → BitVec 64 → BitVec 64) (a b : Int) : Int :=
  (f (BitVec.ofInt 64 a) (BitVec.ofInt 64 b)).toInt

/-- Quotients and remainders round toward zero, and a remainder exists only where the quotient
fits. -/
def Operator.apply : Operator → Int → Int → Except Fault Int
  | .or, a, b => .ok (bitwise (· ||| ·) a b)
  | .xor, a, b => .ok (bitwise (· ^^^ ·) a b)
  | .and, a, b => .ok (bitwise (· &&& ·) a b)
  | .shiftLeft, a, b => do
    let amount ← shiftAmount b
    .ok (BitVec.ofInt 64 a <<< amount).toInt
  | .shiftRight, a, b => do
    let amount ← shiftAmount b
    .ok (a >>> amount)
  | .add, a, b => narrow (a + b)
  | .sub, a, b => narrow (a - b)
  | .mul, a, b => narrow (a * b)
  | .div, a, b => if b = 0 then .error .divisionByZero else narrow (a.tdiv b)
  | .rem, a, b =>
    if b = 0 then .error .divisionByZero
    else do
      let _ ← narrow (a.tdiv b)
      .ok (a.tmod b)

end Accumulator.Expression

import Accumulator.Program.Layout
import Accumulator.Word

set_option autoImplicit false

/-!
Code: the words of a program that is laid out. All tokens are encoded before the first call is tied
to its function, so a fault of any token comes before every fault of a call.
-/

namespace Accumulator

open Source

/-- The base and the digits of a text that has the shape of a number. -/
def numeral? : List Char → Option (Nat × List Char)
  | '0' :: 'b' :: digits => some (2, digits)
  | '0' :: 'x' :: digits => some (16, digits)
  | '0' :: 'd' :: digits => some (10, digits)
  | c :: cs => if c.isDigit || c == '-' then some (10, c :: cs) else none
  | [] => none

/-- The literals are the natural numbers below this one. -/
def literalBound : Nat := 0x1000000

/-- The natural number that digits behind at most one sign denote. -/
def signedValue? (base : Nat) : List Char → Option Nat
  | '+' :: digits => Text.readDigits base digits
  | '-' :: digits => (Text.readDigits base digits).filter (· == 0)
  | digits => Text.readDigits base digits

/-- The address that an operand of a jump names. -/
def Placement.resolveJump (p : Placement) (operand : String) : Except Cause Nat :=
  match p.labelAddress? operand with
  | some address => .ok address
  | none => .error (.labelNotFound operand)

/-- The number that an operand denotes. What has the shape of a number is one; else a variable comes
before a label of its name. -/
def Placement.resolve (p : Placement) (operand : String) : Except Cause Nat :=
  match numeral? operand.toList with
  | some (base, digits) =>
    match (signedValue? base digits).filter (· < literalBound) with
    | some n => .ok n
    | none => .error (.invalidLiteral operand)
  | none =>
    match p.frameAddress? operand, p.labelAddress? operand with
    | some address, _ => .ok address
    | none, some address => .ok address
    | none, none =>
      .error (if Text.isIdentifier operand then .undeclaredVariable operand
        else .invalidLiteral operand)

/-- A literal field: known, or the address of a function that a call names. -/
inductive Reference
  | value (n : Nat)
  | callee (call : Token) (function : String) (given : Nat)
deriving DecidableEq, Repr

/-- The opcode of a token and what its literal field refers to. -/
def Placement.encode (p : Placement) (t : Token) : Except Fault (BitVec 8 × Reference) :=
  match Instruction.find? t.mnemonic with
  | none => .error (t.fault .unknownToken)
  | some i =>
    if !i.operation.takesOperand then
      if t.args = [] then .ok (i.code, .value 0)
      else .error (t.malformed (.operandUnwanted t.mnemonic))
    else if i.operation = .call then
      match t.args with
      | function :: given => .ok (i.code, .callee t function given.length)
      | [] => .error (t.malformed .callUnnamed)
    else
      match t.args with
      | [operand] =>
        match if i.operation = .goto then p.resolveJump operand else p.resolve operand with
        | .ok n => .ok (i.code, .value n)
        | .error cause => .error (t.fault cause)
      | _ => .error (t.malformed (.operandArity t.mnemonic))

namespace Layout

/-- The word of an encoded token, where a call is given its function's address. -/
def link (l : Layout) : BitVec 8 × Reference → Except Fault Word
  | (code, .value n) => .ok ⟨code, BitVec.ofNat 24 n⟩
  | (code, .callee call function given) =>
    match l.function? function with
    | none => .error (call.fault (.functionNotFound function))
    | some p =>
      if p.scope.params.length = given then .ok ⟨code, BitVec.ofNat 24 p.base⟩
      else .error (call.malformed (.callArity function p.scope.params.length given))

/-- The words of the program in the order of their addresses. -/
def code (l : Layout) : Except Fault (List Word) := do
  let main ← l.main.scope.tokens.mapM l.main.encode
  let functions ← l.functions.mapM fun p => p.scope.tokens.mapM p.encode
  (main ++ (0, .value 0) :: functions.flatten).mapM l.link

end Layout

end Accumulator

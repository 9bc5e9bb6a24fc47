import Accumulator.Expression.Lexeme

set_option autoImplicit false

/-!
Evaluation of an expression in one pass over its lexemes. What waits for a later operand is kept on
a stack; an operation is carried out as soon as its right operand is complete, so of several faults
the leftmost complete one is reported.
-/

namespace Accumulator.Expression

/-- What waits for an operand: a sign, a left operand with its operator, or an open parenthesis. -/
inductive Pending
  | sign (s : Sign)
  | left (n : Int) (op : Operator)
  | group
deriving DecidableEq, Repr

/-- Applies the signs that stand directly before an operand, innermost first. -/
def applySigns : List Pending → Int → Except Fault (List Pending × Int)
  | .sign s :: pending, n => do applySigns pending (← s.apply n)
  | pending, n => .ok (pending, n)

/-- Carries out the waiting operations whose operators bind at least as tightly as a level. -/
def applyOperators (level : Nat) : List Pending → Int → Except Fault (List Pending × Int)
  | .left a op :: pending, n =>
    if level ≤ op.level then do applyOperators level pending (← op.apply a n)
    else .ok (.left a op :: pending, n)
  | pending, n => .ok (pending, n)

mutual

/-- Evaluates lexemes at a place where an operand must stand. -/
def evalOperand (pending : List Pending) : List Lexeme → Except Fault Int
  | [] => .error .unexpectedEnd
  | .number digits :: rest => do
    let n ← narrow (Text.ofDigits 10 digits)
    let (pending, n) ← applySigns pending n
    evalOperator pending n rest
  | lexeme :: rest =>
    if lexeme = .symbol '(' then evalOperand (.group :: pending) rest
    else
      match lexeme.sign? with
      | some s => evalOperand (.sign s :: pending) rest
      | none => .error (.unexpectedChar lexeme.first)

/-- Evaluates lexemes at a place where an operand has just ended. -/
def evalOperator (pending : List Pending) (n : Int) : List Lexeme → Except Fault Int
  | [] => do
    match ← applyOperators 0 pending n with
    | ([], n) => .ok n
    | _ => .error .unexpectedEnd
  | lexeme :: rest =>
    match lexeme.operator? with
    | some op => do
      let (pending, n) ← applyOperators op.level pending n
      evalOperand (.left n op :: pending) rest
    | none => do
      let (pending, n) ← applyOperators 0 pending n
      match lexeme, pending with
      | .symbol ')', .group :: pending => do
        let (pending, n) ← applySigns pending n
        evalOperator pending n rest
      | _, _ => .error (.unexpectedChar lexeme.first)

end

/-- The value of an expression. A letter anywhere in it is reported before anything else. -/
def evaluate (text : List Char) : Except Fault Int :=
  if text.any Text.isAlphabetic then .error .letter else evalOperand [] (Lexeme.scan text)

end Accumulator.Expression

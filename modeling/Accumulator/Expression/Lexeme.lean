import Accumulator.Expression.Operator
import Accumulator.Text.Character
import Accumulator.Text.Numeral

set_option autoImplicit false

/-!
The lexemes of an expression: numbers, the two-character shifts, and every other character by
itself. Blanks separate lexemes and belong to none.
-/

namespace Accumulator.Expression

inductive Lexeme
  | number (digits : List Char)
  | shiftLeft
  | shiftRight
  | symbol (c : Char)
deriving DecidableEq, Repr

namespace Lexeme

/-- Puts a digit before the lexemes that follow it: into their first number if that begins at the
very next character, else as a number of its own. -/
def consDigit (digit : Char) (adjacent : Bool) : List Lexeme → List Lexeme
  | .number digits :: rest =>
    if adjacent then .number (digit :: digits) :: rest
    else .number [digit] :: .number digits :: rest
  | rest => .number [digit] :: rest

/-- Two angle brackets of one kind side by side are a shift; one alone is a symbol. -/
def scan : List Char → List Lexeme
  | [] => []
  | '<' :: '<' :: cs => .shiftLeft :: scan cs
  | '>' :: '>' :: cs => .shiftRight :: scan cs
  | c :: cs =>
    if Text.isBlank c then scan cs
    else if c.isDigit then consDigit c (cs.head?.any Char.isDigit) (scan cs)
    else .symbol c :: scan cs

/-- The character that a lexeme begins with. -/
def first : Lexeme → Char
  | .number digits => digits.headD '0'
  | .shiftLeft => '<'
  | .shiftRight => '>'
  | .symbol c => c

/-- The operator that a lexeme is between two operands. -/
def operator? : Lexeme → Option Operator
  | .number _ => none
  | .shiftLeft => some .shiftLeft
  | .shiftRight => some .shiftRight
  | .symbol c =>
    match c with
    | '|' => some .or
    | '^' => some .xor
    | '&' => some .and
    | '+' => some .add
    | '-' => some .sub
    | '*' => some .mul
    | '/' => some .div
    | '%' => some .rem
    | _ => none

/-- The sign that a lexeme is before an operand. -/
def sign? : Lexeme → Option Sign
  | .symbol c => Sign.ofChar? c
  | _ => none

end Lexeme

end Accumulator.Expression

import Accumulator.Expression.Evaluation
import Accumulator.Proofs.Expression.Arithmetic

set_option autoImplicit false

/-!
The grammar of expressions over their characters, and the value of an expression by its grouping.
Neither knows of lexemes or of a stack.
-/

namespace Accumulator.Expression

/-- The levels of the grammar, from the loosest to the tightest. -/
inductive Level
  | or
  | xor
  | and
  | shift
  | sum
  | product
  | unary
  | primary
deriving DecidableEq, Repr

/-- The level that the operands of a level belong to. -/
def Level.next? : Level → Option Level
  | .or => some .xor
  | .xor => some .and
  | .and => some .shift
  | .shift => some .sum
  | .sum => some .product
  | .product => some .unary
  | .unary => some .primary
  | .primary => none

/-- The operators that stand between the operands of a level. -/
def Level.operators : Level → List Operator
  | .or => [.or]
  | .xor => [.xor]
  | .and => [.and]
  | .shift => [.shiftLeft, .shiftRight]
  | .sum => [.add, .sub]
  | .product => [.mul, .div, .rem]
  | .unary | .primary => []

def Operator.text : Operator → List Char
  | .or => ['|']
  | .xor => ['^']
  | .and => ['&']
  | .shiftLeft => ['<', '<']
  | .shiftRight => ['>', '>']
  | .add => ['+']
  | .sub => ['-']
  | .mul => ['*']
  | .div => ['/']
  | .rem => ['%']

def Sign.char : Sign → Char
  | .negative => '-'
  | .complement => '~'
  | .positive => '+'

/-- The number that decimal digits write. -/
def decimal : List Char → Nat
  | [] => 0
  | digit :: digits => (digit.toNat - '0'.toNat) * 10 ^ digits.length + decimal digits

/-- An expression by its grouping. Parentheses group and leave nothing else behind. -/
inductive Tree
  | number (n : Nat)
  | signed (s : Sign) (operand : Tree)
  | binary (op : Operator) (left right : Tree)
deriving DecidableEq, Repr

def Blanks (cs : List Char) : Prop := ∀ c ∈ cs, Text.isBlank c = true

/-- The phrases of a level with their grouping. Every token may have blanks behind it, and a token
has no blanks inside. A chain of operators of one level groups from the left: its left operand is
a phrase of the same level, its right operand one of the next. -/
inductive Derives : Level → List Char → Tree → Prop
  | next (level tighter : Level) (phrase : List Char) (t : Tree)
      (step : level.next? = some tighter) (inner : Derives tighter phrase t) :
      Derives level phrase t
  | binary (level tighter : Level) (op : Operator) (left blanks right : List Char) (l r : Tree)
      (step : level.next? = some tighter) (member : op ∈ level.operators) (blank : Blanks blanks)
      (before : Derives level left l) (behind : Derives tighter right r) :
      Derives level (left ++ op.text ++ blanks ++ right) (.binary op l r)
  | signed (s : Sign) (blanks operand : List Char) (t : Tree) (blank : Blanks blanks)
      (inner : Derives .unary operand t) :
      Derives .unary (s.char :: blanks ++ operand) (.signed s t)
  | number (digits blanks : List Char) (some : digits ≠ [])
      (digital : ∀ c ∈ digits, c.isDigit = true) (blank : Blanks blanks) :
      Derives .primary (digits ++ blanks) (.number (decimal digits))
  | group (blanks phrase trailing : List Char) (t : Tree) (blank : Blanks blanks)
      (last : Blanks trailing) (inner : Derives .or phrase t) :
      Derives .primary ('(' :: blanks ++ phrase ++ ')' :: trailing) t

/-- A text is an expression with a grouping: a phrase of the loosest level behind blanks. -/
def Derivable (text : List Char) (t : Tree) : Prop :=
  ∃ blanks phrase, Blanks blanks ∧ text = blanks ++ phrase ∧ Derives .or phrase t

/-- The result of an expression. Its parts are evaluated from the left, an operation after its
operands, and the first fault on the way is the result. -/
inductive Tree.Evaluates : Tree → Except Fault Int → Prop
  | number (n : Nat) (result : Except Fault Int) (checked : Checked n result) :
      Evaluates (.number n) result
  | signed (s : Sign) (t : Tree) (n : Int) (result : Except Fault Int)
      (operand : Evaluates t (.ok n)) (yields : s.Yields n result) :
      Evaluates (.signed s t) result
  | signedFault (s : Sign) (t : Tree) (f : Fault) (operand : Evaluates t (.error f)) :
      Evaluates (.signed s t) (.error f)
  | binary (op : Operator) (l r : Tree) (a b : Int) (result : Except Fault Int)
      (left : Evaluates l (.ok a)) (right : Evaluates r (.ok b)) (yields : op.Yields a b result) :
      Evaluates (.binary op l r) result
  | leftFault (op : Operator) (l r : Tree) (f : Fault) (left : Evaluates l (.error f)) :
      Evaluates (.binary op l r) (.error f)
  | rightFault (op : Operator) (l r : Tree) (a : Int) (f : Fault) (left : Evaluates l (.ok a))
      (right : Evaluates r (.error f)) : Evaluates (.binary op l r) (.error f)

/-- The same result, computed. -/
def Tree.eval : Tree → Except Fault Int
  | .number n => narrow n
  | .signed s t => t.eval >>= fun n => s.apply n
  | .binary op l r => l.eval >>= fun a => r.eval >>= fun b => op.apply a b

theorem Tree.eval_of_evaluates {t : Tree} {result : Except Fault Int}
    (evaluates : t.Evaluates result) : t.eval = result := by
  induction evaluates with
  | number n result checked => exact (checked_iff n result).mp checked
  | signed s t n result _ yields ih =>
    simp only [Tree.eval, ih]
    exact (s.yields_iff n result).mp yields
  | signedFault s t f _ ih =>
    simp only [Tree.eval, ih]
    rfl
  | binary op l r a b result _ _ yields left right =>
    simp only [Tree.eval, left, right]
    exact (op.yields_iff a b result).mp yields
  | leftFault op l r f _ left =>
    simp only [Tree.eval, left]
    rfl
  | rightFault op l r a f _ _ left right =>
    simp only [Tree.eval, left, right]
    rfl

theorem Tree.evaluates_eval (t : Tree) : t.Evaluates t.eval := by
  induction t with
  | number n => exact .number n _ ((checked_iff n _).mpr rfl)
  | signed s t ih =>
    unfold Tree.eval
    cases operand : t.eval with
    | error f => exact .signedFault s t f (operand ▸ ih)
    | ok n => exact .signed s t n _ (operand ▸ ih) ((s.yields_iff n _).mpr rfl)
  | binary op l r left right =>
    unfold Tree.eval
    cases before : l.eval with
    | error f => exact .leftFault op l r f (before ▸ left)
    | ok a =>
      cases behind : r.eval with
      | error f => exact .rightFault op l r a f (before ▸ left) (behind ▸ right)
      | ok b =>
        have yields := (op.yields_iff a b _).mpr rfl
        exact .binary op l r a b _ (before ▸ left) (behind ▸ right) yields

/-- Every expression has exactly one result. -/
theorem Tree.evaluates_iff (t : Tree) (result : Except Fault Int) :
    t.Evaluates result ↔ t.eval = result := by
  constructor
  · exact Tree.eval_of_evaluates
  · rintro rfl
    exact t.evaluates_eval

end Accumulator.Expression

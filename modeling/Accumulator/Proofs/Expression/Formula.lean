import Accumulator.Proofs.Expression.Reading

set_option autoImplicit false

/-!
Formulas: expressions in which names may stand for operands. A name stands for an integer. Its place can
be taken by the decimal text of the integer, which begins with a sign if the integer is negative; the
grouping that results is `Formula.assign`, and it has the value of the formula.
-/

namespace Accumulator.Expression

/-- A formula by its grouping. -/
inductive Formula
  | number (n : Nat)
  | name (x : String)
  | signed (s : Sign) (operand : Formula)
  | binary (op : Operator) (left right : Formula)
deriving DecidableEq, Repr

/-- The phrases of a level with names as operands: those of expressions, and a name as a primary. -/
inductive Formula.Derives : Level → List Char → Formula → Prop
  | next (level tighter : Level) (phrase : List Char) (t : Formula)
      (step : level.next? = some tighter) (inner : Derives tighter phrase t) :
      Derives level phrase t
  | binary (level tighter : Level) (op : Operator) (left blanks right : List Char) (l r : Formula)
      (step : level.next? = some tighter) (member : op ∈ level.operators) (blank : Blanks blanks)
      (before : Derives level left l) (behind : Derives tighter right r) :
      Derives level (left ++ op.text ++ blanks ++ right) (.binary op l r)
  | signed (s : Sign) (blanks operand : List Char) (t : Formula) (blank : Blanks blanks)
      (inner : Derives .unary operand t) :
      Derives .unary (s.char :: blanks ++ operand) (.signed s t)
  | number (digits blanks : List Char) (some : digits ≠ [])
      (digital : ∀ c ∈ digits, c.isDigit = true) (blank : Blanks blanks) :
      Derives .primary (digits ++ blanks) (.number (decimal digits))
  | name (x : String) (blanks : List Char) (identifier : Text.isIdentifier x = true)
      (blank : Blanks blanks) :
      Derives .primary (x.toList ++ blanks) (.name x)
  | group (blanks phrase trailing : List Char) (t : Formula) (blank : Blanks blanks)
      (last : Blanks trailing) (inner : Derives .or phrase t) :
      Derives .primary ('(' :: blanks ++ phrase ++ ')' :: trailing) t

/-- A text is a formula with a grouping: a phrase of the loosest level behind blanks. -/
def Formula.Derivable (text : List Char) (t : Formula) : Prop :=
  ∃ blanks phrase, Blanks blanks ∧ text = blanks ++ phrase ∧ Formula.Derives .or phrase t

def Formula.names : Formula → List String
  | .number _ => []
  | .name x => [x]
  | .signed _ t => t.names
  | .binary _ l r => l.names ++ r.names

/-- The result of a formula whose names have values. A name is an operand like a number. -/
def Formula.eval (value : String → Int) : Formula → Except Fault Int
  | .number n => narrow n
  | .name x => .ok (value x)
  | .signed s t => t.eval value >>= fun n => s.apply n
  | .binary op l r => l.eval value >>= fun a => r.eval value >>= fun b => op.apply a b

/-- The grouping of the decimal text of an integer. -/
def Tree.ofInt : Int → Tree
  | .ofNat n => .number n
  | .negSucc n => .signed .negative (.number (n + 1))

/-- The formula with the texts of integers in the places of its names. -/
def Formula.assign (value : String → Int) : Formula → Tree
  | .number n => .number n
  | .name x => Tree.ofInt (value x)
  | .signed s t => .signed s (t.assign value)
  | .binary op l r => .binary op (l.assign value) (r.assign value)

/-- The integers whose text has a value: the least one has a number in it that is too large. -/
def Writable (n : Int) : Prop :=
  FitsWord n ∧ n ≠ -0x8000000000000000

instance (n : Int) : Decidable (Writable n) := inferInstanceAs (Decidable ((_ ∧ _) ∧ _))

theorem narrow_of_fits {n : Int} (fits : FitsWord n) : narrow n = .ok n :=
  (checked_iff n _).mp (.fits fits)

theorem Tree.eval_ofInt {n : Int} (writable : Writable n) : (Tree.ofInt n).eval = .ok n := by
  obtain ⟨fits, least⟩ := writable
  cases n with
  | ofNat n => exact narrow_of_fits fits
  | negSucc n =>
    have positive : FitsWord (n + 1 : Nat) := by
      unfold FitsWord at fits ⊢
      omega
    have negated : -((n + 1 : Nat) : Int) = .negSucc n := rfl
    have applied : Sign.negative.apply (n + 1 : Nat) = .ok (.negSucc n) := by
      rw [Sign.apply, negated, narrow_of_fits fits]
    exact bind_eq_ok.mpr ⟨_, narrow_of_fits positive, applied⟩

theorem Tree.eval_ofInt_least : (Tree.ofInt (-0x8000000000000000)).eval = .error .overflow := by
  decide

theorem Formula.eval_assign (value : String → Int) (t : Formula)
    (writable : ∀ x ∈ t.names, Writable (value x)) : (t.assign value).eval = t.eval value := by
  induction t with
  | number n => rfl
  | name x => exact Tree.eval_ofInt (writable x List.mem_cons_self)
  | signed s t ih => rw [assign, Tree.eval, ih writable, eval]
  | binary op l r left right =>
    rw [assign, Tree.eval, eval, left fun x member => writable x (List.mem_append_left _ member),
      right fun x member => writable x (List.mem_append_right _ member)]

section Decimal

/-- The text of an integer: its digits, behind a sign if it is negative. -/
theorem toList_toString (n : Int) :
    (toString n).toList = match n with
      | .ofNat m => Nat.toDigits 10 m
      | .negSucc m => '-' :: Nat.toDigits 10 (m + 1) := by
  cases n with
  | ofNat m => exact Nat.toList_repr
  | negSucc m =>
    change ("-" ++ (m + 1).repr).toList = _
    rw [String.toList_append, Nat.toList_repr]
    rfl

theorem toDigits_digital (n : Nat) : ∀ c ∈ Nat.toDigits 10 n, c.isDigit = true :=
  fun _ member => Nat.isDigit_of_mem_toDigits (by decide) (by decide) member

theorem decimal_toDigits (n : Nat) : decimal (Nat.toDigits 10 n) = n := by
  rw [← ofDigitChars_eq_decimal, Nat.ofDigitChars_ten_toDigits]

/-- The text of an integer is a phrase of the level of signs. -/
theorem derives_toString (n : Int) (blanks : List Char) (blank : Blanks blanks) :
    Derives .unary ((toString n).toList ++ blanks) (Tree.ofInt n) := by
  have digits (m : Nat) : Derives .unary (Nat.toDigits 10 m ++ blanks) (.number m) := by
    have number := Derives.number (Nat.toDigits 10 m) blanks Nat.toDigits_ne_nil
      (toDigits_digital m) blank
    rw [decimal_toDigits] at number
    exact .next .unary .primary _ _ rfl number
  rw [toList_toString]
  cases n with
  | ofNat m => exact digits m
  | negSucc m => exact .signed .negative [] _ _ nofun (digits (m + 1))

/-- A phrase of the level of signs is a phrase of the loosest level. -/
theorem Derives.of_unary {phrase : List Char} {t : Tree} (derives : Derives .unary phrase t) :
    Derives .or phrase t :=
  .next .or .xor _ _ rfl <| .next .xor .and _ _ rfl <| .next .and .shift _ _ rfl <|
    .next .shift .sum _ _ rfl <| .next .sum .product _ _ rfl <| .next .product .unary _ _ rfl derives

theorem evaluate_toString (n : Int) : evaluate (toString n).toList = (Tree.ofInt n).eval := by
  apply evaluate_of_derivable
  have derives := (derives_toString n [] nofun).of_unary
  rw [List.append_nil] at derives
  exact ⟨[], (toString n).toList, nofun, rfl, derives⟩

end Decimal

end Accumulator.Expression

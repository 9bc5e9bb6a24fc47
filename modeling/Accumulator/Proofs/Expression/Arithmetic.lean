import Accumulator.Expression.Operator
import Mathlib.Algebra.Ring.Int.Defs
import Mathlib.Algebra.Ring.Nat

set_option autoImplicit false

/-!
The arithmetic of 64-bit integers as rules: which result, or which fault, an operation has. The
rules speak of integers without a bound, and of words only where an operation is one on bits.
`Sign.yields_iff` and `Operator.yields_iff` say that carrying an operation out follows them.
-/

namespace Accumulator.Expression

/-- An integer that a signed word of 64 bits holds. -/
def FitsWord (n : Int) : Prop := -2 ^ 63 ≤ n ∧ n < 2 ^ 63

theorem inRange_iff (n : Int) : InRange n ↔ FitsWord n := by
  unfold InRange FitsWord
  omega

/-- The quotient rounded toward zero: that of the absolute values, with the sign of the product. -/
def quotient (a b : Int) : Int := a.sign * b.sign * (a.natAbs / b.natAbs : Nat)

/-- The word that holds an integer, negative ones in two's complement. -/
def word (n : Int) : BitVec 64 := BitVec.ofInt 64 n

/-- An exact result is the result if a word holds it, and an overflow if none does. -/
inductive Checked (n : Int) : Except Fault Int → Prop
  | fits (fits : FitsWord n) : Checked n (.ok n)
  | overflow (large : ¬ FitsWord n) : Checked n (.error .overflow)

/-- What a sign makes of its operand. -/
inductive Sign.Yields : Sign → Int → Except Fault Int → Prop
  | negative (n : Int) (result : Except Fault Int) (checked : Checked (-n) result) :
      Yields .negative n result
  /-- All bits of a number and of its complement together make up minus one. -/
  | complement (n m : Int) (flipped : n + m = -1) : Yields .complement n (.ok m)
  | positive (n : Int) : Yields .positive n (.ok n)

/-- What an operator makes of its operands. -/
inductive Operator.Yields : Operator → Int → Int → Except Fault Int → Prop
  | or (a b : Int) : Yields .or a b (.ok (word a ||| word b).toInt)
  | xor (a b : Int) : Yields .xor a b (.ok (word a ^^^ word b).toInt)
  | and (a b : Int) : Yields .and a b (.ok (word a &&& word b).toInt)
  /-- A left shift drops the bits above the word: it is exact up to a multiple of 2 ^ 64. -/
  | shiftLeft (a : Int) (amount : Nat) (n : Int) (inside : amount < 64) (fits : FitsWord n)
      (low : 2 ^ 64 ∣ a * 2 ^ amount - n) : Yields .shiftLeft a amount (.ok n)
  /-- A right shift keeps the sign: it is a division by a power of two that rounds down. -/
  | shiftRight (a : Int) (amount : Nat) (n : Int) (inside : amount < 64)
      (lower : n * 2 ^ amount ≤ a) (upper : a < (n + 1) * 2 ^ amount) :
      Yields .shiftRight a amount (.ok n)
  | shiftOut (op : Operator) (a b : Int) (shifts : op = .shiftLeft ∨ op = .shiftRight)
      (outside : b < 0 ∨ 63 < b) : Yields op a b (.error .overflow)
  | add (a b : Int) (result : Except Fault Int) (checked : Checked (a + b) result) :
      Yields .add a b result
  | sub (a b : Int) (result : Except Fault Int) (checked : Checked (a - b) result) :
      Yields .sub a b result
  | mul (a b : Int) (result : Except Fault Int) (checked : Checked (a * b) result) :
      Yields .mul a b result
  | byZero (op : Operator) (a : Int) (divides : op = .div ∨ op = .rem) :
      Yields op a 0 (.error .divisionByZero)
  | div (a b : Int) (result : Except Fault Int) (nonzero : b ≠ 0)
      (checked : Checked (quotient a b) result) : Yields .div a b result
  | rem (a b : Int) (nonzero : b ≠ 0) (fits : FitsWord (quotient a b)) :
      Yields .rem a b (.ok (a - b * quotient a b))
  | remOverflow (a b : Int) (nonzero : b ≠ 0) (large : ¬ FitsWord (quotient a b)) :
      Yields .rem a b (.error .overflow)

theorem checked_iff (n : Int) (result : Except Fault Int) :
    Checked n result ↔ narrow n = result := by
  unfold narrow
  constructor
  · intro checked
    cases checked with
    | fits fits => rw [if_pos ((inRange_iff n).mpr fits)]
    | overflow large => rw [if_neg (fun fits => large ((inRange_iff n).mp fits))]
  · rintro rfl
    split
    · rename_i fits
      exact .fits ((inRange_iff n).mp fits)
    · rename_i large
      exact .overflow (fun fits => large ((inRange_iff n).mpr fits))

theorem tdiv_eq_quotient (a b : Int) : a.tdiv b = quotient a b := by
  have size : (a.tdiv b).natAbs = a.natAbs / b.natAbs := Int.natAbs_tdiv a b
  have side := Int.sign_tdiv a b
  unfold quotient
  rw [← Int.sign_mul_natAbs (a.tdiv b), size, side]
  split
  · rename_i small
    rw [Nat.div_eq_of_lt small]
    simp
  · rfl

theorem tmod_eq_quotient (a b : Int) : a.tmod b = a - b * quotient a b := by
  rw [Int.tmod_def, tdiv_eq_quotient]

theorem Sign.yields_iff (s : Sign) (n : Int) (result : Except Fault Int) :
    s.Yields n result ↔ s.apply n = result := by
  constructor
  · intro yields
    cases yields with
    | negative _ _ checked => exact (checked_iff (-n) result).mp checked
    | complement _ m flipped =>
      have complement : -n - 1 = m := by omega
      simp only [Sign.apply, complement]
    | positive => rfl
  · rintro rfl
    cases s with
    | negative => exact .negative n _ ((checked_iff (-n) _).mpr rfl)
    | complement => exact .complement n (-n - 1) (by omega)
    | positive => exact .positive n

theorem shiftAmount_natCast (amount : Nat) (inside : amount < 64) :
    shiftAmount amount = .ok amount := by
  have bounds : (0 : Int) ≤ amount ∧ (amount : Int) < 64 := by omega
  simp [shiftAmount, bounds]

theorem shiftAmount_outside (b : Int) (outside : b < 0 ∨ 63 < b) :
    shiftAmount b = .error .overflow := by
  have bounds : ¬ (0 ≤ b ∧ b < 64) := by omega
  simp [shiftAmount, bounds]

/-- The word that is left after a shift holds the only number that agrees in the low bits. -/
theorem toInt_word_shiftLeft (a : Int) (amount : Nat) :
    (word a <<< amount).toInt = (a * 2 ^ amount).bmod (2 ^ 64) := by
  have held : ((word a).toNat : Int) = a % (2 ^ 64 : Nat) := by
    unfold word
    rw [BitVec.toNat_ofInt]
    omega
  rw [BitVec.toInt_shiftLeft, Nat.shiftLeft_eq, Int.natCast_mul, held, Int.emod_mul_bmod]
  push_cast
  rfl

theorem toInt_word_shiftLeft_eq_iff (a n : Int) (amount : Nat) :
    (word a <<< amount).toInt = n ↔ FitsWord n ∧ 2 ^ 64 ∣ a * 2 ^ amount - n := by
  rw [toInt_word_shiftLeft]
  have low := Int.dvd_bmod_sub_self (x := a * 2 ^ amount) (m := 2 ^ 64)
  have lower := Int.le_bmod (x := a * 2 ^ amount) (m := 2 ^ 64) (by decide)
  have upper := Int.bmod_lt (x := a * 2 ^ amount) (m := 2 ^ 64) (by decide)
  unfold FitsWord
  generalize (a * 2 ^ amount).bmod (2 ^ 64) = kept at *
  push_cast at low lower upper
  constructor
  · rintro rfl
    omega
  · rintro ⟨fits, divides⟩
    omega

theorem shiftRight_eq_iff (a n : Int) (amount : Nat) :
    a >>> amount = n ↔ n * 2 ^ amount ≤ a ∧ a < (n + 1) * 2 ^ amount := by
  have positive : (0 : Int) < ((2 ^ amount : Nat) : Int) := by
    exact_mod_cast Nat.two_pow_pos amount
  rw [Int.shiftRight_eq_div_pow, Int.ediv_eq_iff_of_pos positive, Int.add_mul, Int.one_mul]
  push_cast
  rfl

theorem Operator.yields_iff (op : Operator) (a b : Int) (result : Except Fault Int) :
    op.Yields a b result ↔ op.apply a b = result := by
  constructor
  · intro yields
    cases yields with
    | or | xor | and => rfl
    | shiftLeft _ amount n inside fits low =>
      have shifted := (toInt_word_shiftLeft_eq_iff a n amount).mpr ⟨fits, low⟩
      simp only [Operator.apply, shiftAmount_natCast amount inside]
      exact congrArg Except.ok shifted
    | shiftRight _ amount n inside lower upper =>
      have shifted := (shiftRight_eq_iff a n amount).mpr ⟨lower, upper⟩
      simp only [Operator.apply, shiftAmount_natCast amount inside]
      exact congrArg Except.ok shifted
    | shiftOut _ _ _ shifts outside =>
      rcases shifts with rfl | rfl
      · simp only [Operator.apply, shiftAmount_outside b outside]
        rfl
      · simp only [Operator.apply, shiftAmount_outside b outside]
        rfl
    | add _ _ _ checked => exact (checked_iff (a + b) result).mp checked
    | sub _ _ _ checked => exact (checked_iff (a - b) result).mp checked
    | mul _ _ _ checked => exact (checked_iff (a * b) result).mp checked
    | byZero _ _ divides => rcases divides with rfl | rfl <;> rfl
    | div _ _ _ nonzero checked =>
      simp only [Operator.apply, if_neg nonzero, tdiv_eq_quotient]
      exact (checked_iff (quotient a b) result).mp checked
    | rem _ _ nonzero fits =>
      have narrowed := (checked_iff (quotient a b) _).mp (.fits fits)
      simp only [Operator.apply, if_neg nonzero, tdiv_eq_quotient, tmod_eq_quotient, narrowed]
      rfl
    | remOverflow _ _ nonzero large =>
      have narrowed := (checked_iff (quotient a b) _).mp (.overflow large)
      simp only [Operator.apply, if_neg nonzero, tdiv_eq_quotient, tmod_eq_quotient, narrowed]
      rfl
  · rintro rfl
    cases op with
    | or => exact .or a b
    | xor => exact .xor a b
    | and => exact .and a b
    | add => exact .add a b _ ((checked_iff (a + b) _).mpr rfl)
    | sub => exact .sub a b _ ((checked_iff (a - b) _).mpr rfl)
    | mul => exact .mul a b _ ((checked_iff (a * b) _).mpr rfl)
    | shiftLeft =>
      by_cases inside : 0 ≤ b ∧ b < 64
      · obtain ⟨amount, rfl⟩ := Int.eq_ofNat_of_zero_le inside.1
        have below : amount < 64 := by omega
        obtain ⟨fits, low⟩ := (toInt_word_shiftLeft_eq_iff a _ amount).mp rfl
        simp only [Operator.apply, shiftAmount_natCast amount below]
        exact .shiftLeft a amount _ below fits low
      · have outside : b < 0 ∨ 63 < b := by omega
        simp only [Operator.apply, shiftAmount_outside b outside]
        exact .shiftOut _ a b (Or.inl rfl) outside
    | shiftRight =>
      by_cases inside : 0 ≤ b ∧ b < 64
      · obtain ⟨amount, rfl⟩ := Int.eq_ofNat_of_zero_le inside.1
        have below : amount < 64 := by omega
        obtain ⟨lower, upper⟩ := (shiftRight_eq_iff a _ amount).mp rfl
        simp only [Operator.apply, shiftAmount_natCast amount below]
        exact .shiftRight a amount _ below lower upper
      · have outside : b < 0 ∨ 63 < b := by omega
        simp only [Operator.apply, shiftAmount_outside b outside]
        exact .shiftOut _ a b (Or.inr rfl) outside
    | div =>
      by_cases zero : b = 0
      · subst zero
        exact .byZero _ a (Or.inl rfl)
      · simp only [Operator.apply, if_neg zero, tdiv_eq_quotient]
        exact .div a b _ zero ((checked_iff (quotient a b) _).mpr rfl)
    | rem =>
      by_cases zero : b = 0
      · subst zero
        exact .byZero _ a (Or.inr rfl)
      · simp only [Operator.apply, if_neg zero, tdiv_eq_quotient, tmod_eq_quotient]
        by_cases fits : FitsWord (quotient a b)
        · rw [(checked_iff (quotient a b) _).mp (.fits fits)]
          exact .rem a b zero fits
        · rw [(checked_iff (quotient a b) _).mp (.overflow fits)]
          exact .remOverflow a b zero fits

end Accumulator.Expression

import Accumulator.Text.Numeral

set_option autoImplicit false

/-!
Digits are read as the number that they write, and the bits of a word are the binary digits of its
number.
-/

namespace Accumulator.Text

theorem digitValue_of_isDigit (c : Char) (digit : c.isDigit = true) :
    digitValue c = some (c.toNat - '0'.toNat) := by
  have bounds : '0' ≤ c ∧ c ≤ '9' := Char.isDigit_iff_toNat.mp digit
  unfold digitValue
  rw [if_pos bounds]

theorem isDigitOf_ten_of_isDigit (c : Char) (digit : c.isDigit = true) :
    isDigitOf 10 c = true := by
  have bounds := Char.isDigit_iff_toNat.mp digit
  have below : c.toNat - '0'.toNat < 10 := by
    change 48 ≤ c.toNat ∧ c.toNat ≤ 57 at bounds
    change c.toNat - 48 < 10
    omega
  unfold isDigitOf
  rw [digitValue_of_isDigit c digit, Option.any_some]
  exact decide_eq_true below

theorem foldl_digitValue (base : Nat) (digits : List Char)
    (digital : ∀ c ∈ digits, c.isDigit = true) (n : Nat) :
    digits.foldl (fun n c => n * base + (digitValue c).getD 0) n =
      Nat.ofDigitChars base digits n := by
  induction digits generalizing n with
  | nil => rfl
  | cons digit digits ih =>
    have value := digitValue_of_isDigit digit (digital digit List.mem_cons_self)
    rw [List.foldl_cons, ih (fun c member => digital c (List.mem_cons_of_mem _ member)), value,
      Option.getD_some, Nat.ofDigitChars_cons, Nat.mul_comm]

theorem readDigits_toDigits (n : Nat) : readDigits 10 (Nat.toDigits 10 n) = some n := by
  have digital : ∀ c ∈ Nat.toDigits 10 n, c.isDigit = true := fun c member =>
    Nat.isDigit_of_mem_toDigits (by decide) (by decide) member
  have all : (Nat.toDigits 10 n).all (isDigitOf 10) = true := by
    rw [List.all_eq_true]
    exact fun c member => isDigitOf_ten_of_isDigit c (digital c member)
  unfold readDigits ofDigits
  rw [if_pos ⟨Nat.toDigits_ne_nil, all⟩, foldl_digitValue 10 _ digital,
    Nat.ofDigitChars_ten_toDigits]

theorem isDigitOf_two_iff (c : Char) : isDigitOf 2 c = true ↔ c = '0' ∨ c = '1' := by
  constructor
  · intro digit
    unfold isDigitOf digitValue at digit
    split at digit
    · rename_i bounds
      have low : 48 ≤ c.toNat := bounds.1
      have below : c.toNat - 48 < 2 := of_decide_eq_true digit
      have value : c.toNat = 48 ∨ c.toNat = 49 := by omega
      exact value.imp (Char.toNat_inj (d := '0')).mp (Char.toNat_inj (d := '1')).mp
    · -- Letters are worth ten and more.
      split at digit
      · have below : c.toNat - 97 + 10 < 2 := of_decide_eq_true digit
        omega
      · split at digit
        · have below : c.toNat - 65 + 10 < 2 := of_decide_eq_true digit
          omega
        · cases digit
  · rintro (rfl | rfl) <;> decide

section Bits

theorem bits_concat {width : Nat} (word : BitVec width) (bit : Bool) :
    bits (word.concat bit) = bits word ++ [if bit then '1' else '0'] := by
  unfold bits
  rw [List.range_succ, List.map_append, List.map_singleton]
  congr 1
  · apply List.map_congr_left
    intro i inside
    rw [BitVec.getMsbD_concat, if_pos (List.mem_range.mp inside)]
  · simp [BitVec.getMsbD_concat]

theorem bits_append {m n : Nat} (high : BitVec m) (low : BitVec n) :
    bits (high ++ low) = bits high ++ bits low := by
  unfold bits
  rw [List.range_add, List.map_append, List.map_map]
  congr 1
  · apply List.map_congr_left
    intro i inside
    rw [BitVec.getMsbD_append, if_neg (Nat.not_le.mpr (List.mem_range.mp inside))]
  · apply List.map_congr_left
    intro i _
    simp [BitVec.getMsbD_append]

theorem length_bits {width : Nat} (word : BitVec width) : (bits word).length = width := by
  simp [bits]

theorem bits_binary {width : Nat} (word : BitVec width) : ∀ c ∈ bits word, c = '0' ∨ c = '1' := by
  intro c member
  obtain ⟨i, _, rfl⟩ := List.mem_map.mp member
  cases word.getMsbD i
  · exact .inl rfl
  · exact .inr rfl

/-- A word of one bit or more is another word and its last bit. -/
theorem exists_concat {width : Nat} (word : BitVec (width + 1)) :
    ∃ (front : BitVec width) (last : Bool), word = front.concat last := by
  refine ⟨(word >>> 1).setWidth width, word.getLsbD 0, ?_⟩
  apply BitVec.eq_of_getLsbD_eq
  intro i inside
  rw [BitVec.getLsbD_concat]
  cases i with
  | zero => rfl
  | succ i => simp [Nat.add_comm 1 i, show i < width by omega]

/-- The bits of a word write its number. -/
theorem ofDigitChars_bits {width : Nat} (word : BitVec width) :
    Nat.ofDigitChars 2 (bits word) 0 = word.toNat := by
  induction width with
  | zero => simp [bits, BitVec.of_length_zero]
  | succ width ih =>
    obtain ⟨front, last, rfl⟩ := exists_concat word
    rw [bits_concat, Nat.ofDigitChars_append, ih, BitVec.toNat_concat, Nat.mul_comm]
    cases last <;> rfl

/-- As many binary digits as a word is wide are the bits of a word. -/
theorem exists_bits {width : Nat} (digits : List Char) (length : digits.length = width)
    (binary : ∀ c ∈ digits, c = '0' ∨ c = '1') : ∃ word : BitVec width, digits = bits word := by
  induction width generalizing digits with
  | zero => exact ⟨0, List.length_eq_zero_iff.mp length⟩
  | succ width ih =>
    rcases List.eq_nil_or_concat digits with rfl | ⟨front, last, rfl⟩
    · cases length
    · rw [List.concat_eq_append] at *
      obtain ⟨word, rfl⟩ := ih front (by simpa using length) fun c member =>
        binary c (List.mem_append_left _ member)
      rcases binary last (by simp) with rfl | rfl
      · exact ⟨word.concat false, (bits_concat word false).symm⟩
      · exact ⟨word.concat true, (bits_concat word true).symm⟩

end Bits

end Accumulator.Text

import Accumulator.Text.Character

set_option autoImplicit false

/-!
Classes of characters as ranges of code points, which tell that two classes have nothing in common.
-/

namespace Accumulator.Text

/-- Whether every range of the first class lies below or above every range of the second. -/
def rangesApart (first second : List (Nat × Nat)) : Bool :=
  first.all fun r => second.all fun q => r.2.blt q.1 || q.2.blt r.1

theorem inRanges_apart (first second : List (Nat × Nat)) (apart : rangesApart first second = true)
    (c : Char) (inside : inRanges first c = true) : inRanges second c = false := by
  unfold inRanges at inside ⊢
  obtain ⟨r, member, within⟩ := List.any_eq_true.mp inside
  rw [List.any_eq_false]
  intro q other both
  have order := List.all_eq_true.mp (List.all_eq_true.mp apart r member) q other
  simp only [Bool.or_eq_true, Nat.blt_eq] at order
  simp only [Bool.and_eq_true, decide_eq_true_eq] at within both
  omega

theorem inRanges_of_isDigit (c : Char) (digit : c.isDigit = true) :
    inRanges [(0x30, 0x39)] c = true := by
  have bounds := Char.isDigit_iff_toNat.mp digit
  have zero : '0'.toNat = 0x30 := rfl
  have nine : '9'.toNat = 0x39 := rfl
  simp only [inRanges, List.any_cons, List.any_nil, Bool.or_false, Bool.and_eq_true,
    decide_eq_true_eq]
  omega

/-- The code points of word characters. -/
def wordRanges : List (Nat × Nat) := [(0x30, 0x39), (0x41, 0x5A), (0x5F, 0x5F), (0x61, 0x7A)]

theorem inRanges_of_isWordChar (c : Char) (word : isWordChar c = true) :
    inRanges wordRanges c = true := by
  unfold isWordChar Char.isAlphanum Char.isAlpha Char.isUpper Char.isLower Char.isDigit at word
  simp only [Bool.or_eq_true, Bool.and_eq_true, decide_eq_true_eq, beq_iff_eq, ge_iff_le,
    UInt32.le_iff_toNat_le] at word
  simp only [inRanges, wordRanges, List.any_cons, List.any_nil, Bool.or_false, Bool.or_eq_true,
    Bool.and_eq_true, decide_eq_true_eq]
  rcases word with ((upper | lower) | digit) | rfl
  · exact .inr (.inl upper)
  · exact .inr (.inr (.inr lower))
  · exact .inl digit
  · exact .inr (.inr (.inl (by decide)))

/-- A word character is no blank, and no part of the marker of a comment. -/
theorem isWordChar_plain {c : Char} (word : isWordChar c = true) :
    isBlank c = false ∧ c ≠ ';' ∧ c ≠ '/' := by
  have inside := inRanges_of_isWordChar c word
  have blank := inRanges_apart wordRanges blankRanges (by decide) c inside
  have marker := inRanges_apart wordRanges [(0x2F, 0x2F), (0x3B, 0x3B)] (by decide) c inside
  refine ⟨blank, ?_, ?_⟩
  · rintro rfl
    revert marker
    decide
  · rintro rfl
    revert marker
    decide

theorem isWordChar_of_isDigit {c : Char} (digit : c.isDigit = true) : isWordChar c = true := by
  simp only [isWordChar, Char.isAlphanum, digit, Bool.or_true, Bool.true_or]

theorem word_of_identifier {text : String} (identifier : isIdentifier text = true) :
    text.toList ≠ [] ∧ ∀ c ∈ text.toList, isWordChar c = true := by
  unfold isIdentifier at identifier
  split at identifier
  · cases identifier
  · rename_i c cs spelled
    rw [Bool.and_eq_true, List.all_eq_true] at identifier
    obtain ⟨first, rest⟩ := identifier
    rw [spelled]
    refine ⟨List.cons_ne_nil c cs, ?_⟩
    rw [List.forall_mem_cons]
    refine ⟨?_, rest⟩
    unfold isWordChar Char.isAlphanum
    rcases Bool.or_eq_true_iff.mp first with letter | underscore
    · simp only [letter, Bool.true_or]
    · simp only [underscore, Bool.or_true]

/-- Names begin behind the digits and the minus sign. -/
theorem nine_lt_of_letter (c : Char) (letter : (c.isAlpha || c == '_') = true) :
    '9'.toNat < c.toNat := by
  rcases Bool.or_eq_true_iff.mp letter with alpha | underscore
  · rcases Bool.or_eq_true_iff.mp alpha with upper | lower
    · have first : 'A'.val ≤ c.val := (of_decide_eq_true upper).1
      exact Nat.lt_of_lt_of_le (by decide) (UInt32.le_iff_toNat_le.mp first)
    · have first : 'a'.val ≤ c.val := of_decide_eq_true (Bool.and_eq_true_iff.mp lower).1
      exact Nat.lt_of_lt_of_le (by decide) (UInt32.le_iff_toNat_le.mp first)
  · obtain rfl := eq_of_beq underscore
    decide

/-- A text that begins with a digit, or with a character that belongs to no word, is no identifier. -/
theorem not_isIdentifier_of_first {c : Char} {cs : List Char}
    (first : c.isDigit = true ∨ isWordChar c = false) :
    isIdentifier (String.ofList (c :: cs)) = false := by
  rw [Bool.eq_false_iff]
  intro identifier
  have inside := (word_of_identifier identifier).2 c (by simp)
  unfold isIdentifier at identifier
  rw [String.toList_ofList] at identifier
  obtain ⟨letter, _⟩ := Bool.and_eq_true_iff.mp identifier
  have beyond := nine_lt_of_letter c letter
  rcases first with digit | other
  · have bounds := Char.isDigit_iff_toNat.mp digit
    omega
  · rw [inside] at other
    cases other

end Accumulator.Text

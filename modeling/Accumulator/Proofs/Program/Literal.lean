import Accumulator.Proofs.Program.WellNested
import Mathlib.Data.Nat.Digits.Defs

set_option autoImplicit false

/-!
The numbers that operands write: decimal digits, or digits of a base that a mark in front of them
names. What is read as a number is more than that, since the digits behind a mark may have a sign.
-/

namespace Accumulator

open Source

namespace Text

/-- A digit of bases up to sixteen with its value, where letters stand in either case. -/
def IsDigit (c : Char) (d : Nat) : Prop :=
  "0123456789abcdef".toList[d]? = some c ∨ "0123456789ABCDEF".toList[d]? = some c

instance (c : Char) (d : Nat) : Decidable (IsDigit c d) :=
  inferInstanceAs (Decidable (_ ∨ _))

/-- One or more digits of a base write a number. -/
def Writes (base : Nat) (digits : List Char) (n : Nat) : Prop :=
  digits ≠ [] ∧ ∃ values, List.Forall₂ (fun c d => IsDigit c d ∧ d < base) digits values ∧
    n = Nat.ofDigits base values.reverse

theorem digitValue_eq_some_iff (c : Char) (d : Nat) : digitValue c = some d ↔ IsDigit c d := by
  constructor
  · intro value
    have ascii : ∀ n < 128, ∀ d ∈ digitValue (Char.ofNat n), IsDigit (Char.ofNat n) d := by
      decide +kernel
    have small : c.toNat < 128 := by
      unfold digitValue at value
      split_ifs at value with digit lower upper
      · exact Nat.lt_of_le_of_lt digit.2 (by decide)
      · exact Nat.lt_of_le_of_lt lower.2 (by decide)
      · exact Nat.lt_of_le_of_lt upper.2 (by decide)
    have here := ascii c.toNat small d
    rw [Char.ofNat_toNat] at here
    exact here value
  · have lower : ∀ d < 16, "0123456789abcdef".toList[d]?.all (digitValue · = some d) = true := by
      decide +kernel
    have upper : ∀ d < 16, "0123456789ABCDEF".toList[d]?.all (digitValue · = some d) = true := by
      decide +kernel
    rintro (found | found)
    · have here := lower d (List.getElem?_eq_some_iff.mp found).1
      rw [found, Option.all_some] at here
      exact of_decide_eq_true here
    · have here := upper d (List.getElem?_eq_some_iff.mp found).1
      rw [found, Option.all_some] at here
      exact of_decide_eq_true here

theorem isDigitOf_iff (base : Nat) (c : Char) :
    isDigitOf base c = true ↔ ∃ d, IsDigit c d ∧ d < base := by
  unfold isDigitOf
  rw [Option.any_eq_true]
  simp only [digitValue_eq_some_iff, decide_eq_true_eq]

theorem ofDigits_of_values {base : Nat} {digits : List Char} {values : List Nat}
    (related : List.Forall₂ (fun c d => IsDigit c d ∧ d < base) digits values) :
    ofDigits base digits = Nat.ofDigits base values.reverse := by
  have folded : ∀ n, digits.foldl (fun n c => n * base + (digitValue c).getD 0) n =
      values.foldl (fun n d => n * base + d) n := by
    induction related with
    | nil => exact fun _ => rfl
    | cons here _ ih =>
      intro n
      rw [List.foldl_cons, List.foldl_cons, (digitValue_eq_some_iff _ _).mpr here.1,
        Option.getD_some, ih]
  unfold ofDigits
  rw [folded, Nat.ofDigits_eq_foldr, List.foldr_reverse]
  congr 1
  funext n d
  simp only [Nat.cast_id]
  ring

theorem readDigits_eq_some_iff (base : Nat) (digits : List Char) (n : Nat) :
    readDigits base digits = some n ↔ Writes base digits n := by
  unfold readDigits
  constructor
  · intro read
    split_ifs at read with proper
    cases read
    have each : ∀ c ∈ digits, IsDigit c ((digitValue c).getD 0) ∧ (digitValue c).getD 0 < base := by
      intro c member
      obtain ⟨d, digit, below⟩ := (isDigitOf_iff base c).mp (List.all_eq_true.mp proper.2 c member)
      rw [(digitValue_eq_some_iff c d).mpr digit, Option.getD_some]
      exact ⟨digit, below⟩
    have related : List.Forall₂ (fun c d => IsDigit c d ∧ d < base) digits
        (digits.map fun c => (digitValue c).getD 0) := by
      rw [List.forall₂_map_right_iff, List.forall₂_same]
      exact each
    exact ⟨proper.1, _, related, ofDigits_of_values related⟩
  · rintro ⟨some, values, related, rfl⟩
    have digital : digits.all (isDigitOf base) = true := by
      rw [List.all_eq_true]
      intro c member
      rw [isDigitOf_iff]
      obtain ⟨d, _, digit⟩ := forall₂_exists_of_mem related c member
      exact ⟨d, digit⟩
    rw [if_pos ⟨some, digital⟩, ofDigits_of_values related]

theorem Writes.digit {base n : Nat} {digits : List Char} (writes : Writes base digits n) :
    ∀ c ∈ digits, ∃ d, IsDigit c d ∧ d < base := by
  obtain ⟨_, values, related, _⟩ := writes
  intro c member
  obtain ⟨d, _, digit⟩ := forall₂_exists_of_mem related c member
  exact ⟨d, digit⟩

theorem IsDigit.plain {c : Char} {d : Nat} (digit : IsDigit c d) : c ≠ '+' ∧ c ≠ '-' := by
  have value := (digitValue_eq_some_iff c d).mpr digit
  have plus : digitValue '+' = none := by decide
  have minus : digitValue '-' = none := by decide
  constructor
  · rintro rfl
    rw [plus] at value
    cases value
  · rintro rfl
    rw [minus] at value
    cases value

theorem IsDigit.decimal {c : Char} {d : Nat} (digit : IsDigit c d) (below : d < 10) :
    c.isDigit = true := by
  have lower : ∀ d < 10, "0123456789abcdef".toList[d]?.all Char.isDigit = true := by
    decide +kernel
  have upper : ∀ d < 10, "0123456789ABCDEF".toList[d]?.all Char.isDigit = true := by
    decide +kernel
  rcases digit with found | found
  · have here := lower d below
    rw [found, Option.all_some] at here
    exact here
  · have here := upper d below
    rw [found, Option.all_some] at here
    exact here

/-- A mark in front of digits, with the base that it names. Digits without a mark are decimal. -/
inductive Mark : List Char → Nat → Prop
  | none : Mark [] 10
  | decimal : Mark ['0', 'd'] 10
  | hexadecimal : Mark ['0', 'x'] 16
  | binary : Mark ['0', 'b'] 2

/-- A text writes a number in one of the documented ways. -/
inductive Numeral : List Char → Nat → Prop
  | digits (mark digits : List Char) (base n : Nat) (marks : Mark mark base)
      (writes : Writes base digits n) : Numeral (mark ++ digits) n

/-- A text has a sign where none is documented, and is read as a number all the same: a plus sign
behind a mark, or a minus sign before zero. -/
inductive SignedNumeral : List Char → Nat → Prop
  | plus (mark digits : List Char) (base n : Nat) (marks : Mark mark base) (marked : mark ≠ [])
      (writes : Writes base digits n) : SignedNumeral (mark ++ '+' :: digits) n
  | minus (mark digits : List Char) (base : Nat) (marks : Mark mark base)
      (writes : Writes base digits 0) : SignedNumeral (mark ++ '-' :: digits) 0

theorem Mark.plain {mark : List Char} {base : Nat} (marks : Mark mark base) :
    '+' ∉ mark ∧ '-' ∉ mark := by
  cases marks <;> decide

theorem Numeral.plain {text : List Char} {n : Nat} (numeral : Numeral text n) :
    '+' ∉ text ∧ '-' ∉ text := by
  obtain ⟨mark, digits, base, _, marks, writes⟩ := numeral
  have digital : ∀ c ∈ digits, c ≠ '+' ∧ c ≠ '-' := by
    intro c member
    obtain ⟨d, digit, _⟩ := writes.digit c member
    exact digit.plain
  rw [List.mem_append, List.mem_append]
  exact ⟨not_or.mpr ⟨marks.plain.1, fun member => (digital '+' member).1 rfl⟩,
    not_or.mpr ⟨marks.plain.2, fun member => (digital '-' member).2 rfl⟩⟩

theorem SignedNumeral.sign {text : List Char} {n : Nat} (signed : SignedNumeral text n) :
    '+' ∈ text ∨ '-' ∈ text := by
  cases signed with
  | plus mark digits base _ _ _ _ => exact .inl (List.mem_append_right mark List.mem_cons_self)
  | minus mark digits base _ _ => exact .inr (List.mem_append_right mark List.mem_cons_self)

/-- A text with such a sign is written in none of the documented ways. -/
theorem SignedNumeral.undocumented {text : List Char} {m n : Nat} (signed : SignedNumeral text m) :
    ¬ Numeral text n := by
  intro numeral
  rcases signed.sign with plus | minus
  · exact numeral.plain.1 plus
  · exact numeral.plain.2 minus

end Text

open Text

theorem signedValue?_eq_some_iff (base : Nat) (cs : List Char) (n : Nat) :
    signedValue? base cs = some n ↔ Writes base cs n ∨
      (∃ digits, cs = '+' :: digits ∧ Writes base digits n) ∨
      ∃ digits, cs = '-' :: digits ∧ Writes base digits 0 ∧ n = 0 := by
  have unsigned (sign : Char) (isSign : sign = '+' ∨ sign = '-') (digits : List Char) :
      ¬ Writes base (sign :: digits) n := by
    intro writes
    obtain ⟨d, digit, _⟩ := writes.digit sign List.mem_cons_self
    rcases isSign with rfl | rfl
    · exact digit.plain.1 rfl
    · exact digit.plain.2 rfl
  unfold signedValue?
  split
  · rename_i digits
    rw [readDigits_eq_some_iff]
    have none := unsigned '+' (.inl rfl) digits
    simp [none]
  · rename_i digits
    rw [Option.filter_eq_some_iff, readDigits_eq_some_iff, beq_iff_eq]
    have none := unsigned '-' (.inr rfl) digits
    constructor
    · rintro ⟨writes, rfl⟩
      exact .inr (.inr ⟨digits, rfl, writes, rfl⟩)
    · rintro (writes | ⟨_, same, _⟩ | ⟨_, same, writes, rfl⟩)
      · exact absurd writes none
      · cases same
      · cases same
        exact ⟨writes, rfl⟩
  · rename_i noPlus noMinus
    rw [readDigits_eq_some_iff]
    constructor
    · exact .inl
    · rintro (writes | ⟨digits, rfl, _⟩ | ⟨digits, rfl, _⟩)
      · exact writes
      · exact absurd rfl (noPlus digits)
      · exact absurd rfl (noMinus digits)

/-- What has the shape of a number begins with a mark, or with a digit or a minus sign. -/
theorem numeral?_eq_some {cs digits : List Char} {base : Nat}
    (shape : numeral? cs = some (base, digits)) :
    ∃ mark, Mark mark base ∧ cs = mark ++ digits ∧ (mark = [] → ∀ rest, cs ≠ '+' :: rest) := by
  unfold numeral? at shape
  split at shape
  · cases shape
    exact ⟨_, .binary, rfl, nofun⟩
  · cases shape
    exact ⟨_, .hexadecimal, rfl, nofun⟩
  · cases shape
    exact ⟨_, .decimal, rfl, nofun⟩
  · rename_i c cs _ _ _
    split_ifs at shape with first
    cases shape
    refine ⟨_, .none, rfl, ?_⟩
    rintro _ rest same
    cases same
    exact absurd first (by decide)
  · cases shape

theorem numeral?_of_mark {mark : List Char} {base : Nat} (marks : Mark mark base)
    (marked : mark ≠ []) (digits : List Char) : numeral? (mark ++ digits) = some (base, digits) := by
  cases marks with
  | none => exact absurd rfl marked
  | decimal => rfl
  | hexadecimal => rfl
  | binary => rfl

/-- The texts that are read as a number. -/
theorem literalValue?_eq_some_iff (text : String) (n : Nat) :
    literalValue? text = some n ↔ Numeral text.toList n ∨ SignedNumeral text.toList n := by
  unfold literalValue?
  generalize text.toList = cs
  constructor
  · intro read
    obtain ⟨⟨base, digits⟩, shape, value⟩ := Option.bind_eq_some_iff.mp read
    obtain ⟨mark, marks, rfl, unmarked⟩ := numeral?_eq_some shape
    rcases (signedValue?_eq_some_iff base digits n).mp value with
      writes | ⟨digits, rfl, writes⟩ | ⟨digits, rfl, writes, rfl⟩
    · exact .inl (.digits mark digits base n marks writes)
    · have marked : mark ≠ [] := by
        rintro rfl
        exact unmarked rfl digits rfl
      exact .inr (.plus mark digits base n marks marked writes)
    · exact .inr (.minus mark digits base marks writes)
  · have shape (mark digits : List Char) (base : Nat) (marks : Mark mark base)
        (unmarked : mark = [] → numeral? digits = some (10, digits)) :
        numeral? (mark ++ digits) = some (base, digits) := by
      by_cases marked : mark = []
      · subst marked
        cases marks
        exact unmarked rfl
      · exact numeral?_of_mark marks marked digits
    rintro (⟨mark, digits, base, _, marks, writes⟩ |
      ⟨mark, digits, base, _, marks, marked, writes⟩ | ⟨mark, digits, base, marks, writes⟩)
    · have decimal : mark = [] → numeral? digits = some (10, digits) := by
        rintro rfl
        cases marks
        apply numeral?_of_digits digits writes.1
        intro c member
        obtain ⟨d, digit, below⟩ := writes.digit c member
        exact digit.decimal below
      rw [shape mark digits base marks decimal, Option.bind_some]
      exact (signedValue?_eq_some_iff base digits n).mpr (.inl writes)
    · rw [numeral?_of_mark marks marked, Option.bind_some]
      exact (signedValue?_eq_some_iff base _ n).mpr (.inr (.inl ⟨digits, rfl, writes⟩))
    · rw [shape mark ('-' :: digits) base marks fun _ => rfl, Option.bind_some]
      exact (signedValue?_eq_some_iff base _ 0).mpr (.inr (.inr ⟨digits, rfl, writes, rfl⟩))

namespace Placement

/-- An operand of a scope is read by the documented grammar: it denotes the number that it writes, and
if it writes none that fits a literal, it is invalid. -/
structure FollowsGrammar (p : Placement) (operand : String) : Prop where
  denotes : ∀ n, p.resolve operand = .ok n ↔ Numeral operand.toList n ∧ n < literalBound
  invalid : (∀ n, Numeral operand.toList n → literalBound ≤ n) →
    p.resolve operand = .error (.invalidLiteral operand)

/-- What no variable and no label of a scope is named is a number or nothing. -/
theorem resolve_unnamed {p : Placement} {operand : String}
    (unnamed : Text.isIdentifier operand = false) (unaddressed : p.frameAddress? operand = none)
    (unplaced : p.labelAddress? operand = none) :
    p.resolve operand = match (literalValue? operand).filter (· < literalBound) with
      | some n => .ok n
      | none => .error (.invalidLiteral operand) := by
  unfold Placement.resolve literalValue?
  cases shape : numeral? operand.toList with
  | none => simp [unaddressed, unplaced, unnamed]
  | some reading => rfl

theorem resolve_unnamed_eq_ok_iff {p : Placement} {operand : String}
    (unnamed : Text.isIdentifier operand = false) (unaddressed : p.frameAddress? operand = none)
    (unplaced : p.labelAddress? operand = none) (n : Nat) :
    p.resolve operand = .ok n ↔
      (Numeral operand.toList n ∨ SignedNumeral operand.toList n) ∧ n < literalBound := by
  rw [resolve_unnamed unnamed unaddressed unplaced, ← literalValue?_eq_some_iff]
  have within : literalValue? operand = some n ∧ n < literalBound ↔
      (literalValue? operand).filter (· < literalBound) = some n := by
    rw [Option.filter_eq_some_iff, decide_eq_true_eq]
  rw [within]
  cases (literalValue? operand).filter (· < literalBound) <;> simp

theorem resolve_unnamed_cases {p : Placement} {operand : String}
    (unnamed : Text.isIdentifier operand = false) (unaddressed : p.frameAddress? operand = none)
    (unplaced : p.labelAddress? operand = none) :
    (∃ n, p.resolve operand = .ok n) ∨ p.resolve operand = .error (.invalidLiteral operand) := by
  rw [resolve_unnamed unnamed unaddressed unplaced]
  cases (literalValue? operand).filter (· < literalBound) <;> simp

end Placement

/-- Variables and labels have names, so what is no name has no address. -/
theorem Layout.unaddressed {text : List Char} {program : Program} {l : Layout}
    (source : Program.ofSource text = .ok program) (placed : Layout.ofProgram program = .ok l)
    {p : Placement} (member : p ∈ l.placements) {operand : String}
    (unnamed : Text.isIdentifier operand = false) :
    p.frameAddress? operand = none ∧ p.labelAddress? operand = none := by
  obtain ⟨tokens, expanded, parsed⟩ := Program.ofSource_eq_ok.mp source
  have declares := (Layout.named_of_ofProgram parsed placed).declares p member
  have within := (Layout.places_of_ofProgram placed).scope_mem p member
  obtain ⟨main, functions, nested, rfl⟩ := Program.wellNested parsed
  constructor
  · unfold Placement.frameAddress?
    rw [Option.map_eq_none_iff, List.idxOf?_eq_none_iff]
    intro declared
    rw [declares.identifier operand declared] at unnamed
    cases unnamed
  · unfold Placement.labelAddress?
    rw [Option.map_eq_none_iff]
    cases found : p.scope.label? operand with
    | none => rfl
    | some offset =>
      rw [nested.label_identifier expanded within found] at unnamed
      cases unnamed

/-- An operand that is no name follows the documented grammar exactly if it is not one of the signed
texts that are read as well. It denotes the number that it writes or that is behind its sign, if this
fits a literal, and else it is invalid. -/
theorem unnamed_operands_are_numerals (text : List Char) (program : Program) (l : Layout)
    (source : Program.ofSource text = .ok program) (placed : Layout.ofProgram program = .ok l)
    (p : Placement) (member : p ∈ l.placements) (operand : String)
    (unnamed : Text.isIdentifier operand = false) :
    (p.FollowsGrammar operand ↔ ∀ n < literalBound, ¬ SignedNumeral operand.toList n) ∧
      (∀ n, p.resolve operand = .ok n ↔
        (Numeral operand.toList n ∨ SignedNumeral operand.toList n) ∧ n < literalBound) ∧
      ((∀ n, p.resolve operand ≠ .ok n) →
        p.resolve operand = .error (.invalidLiteral operand)) := by
  obtain ⟨unaddressed, unplaced⟩ := Layout.unaddressed source placed member unnamed
  have resolved := Placement.resolve_unnamed_eq_ok_iff unnamed unaddressed unplaced
  have otherwise := Placement.resolve_unnamed_cases unnamed unaddressed unplaced
  refine ⟨⟨?_, ?_⟩, resolved, ?_⟩
  · intro follows n fits signed
    have read := (resolved n).mpr ⟨.inr signed, fits⟩
    exact signed.undocumented ((follows.denotes n).mp read).1
  · intro unsigned
    have documented : ∀ n, p.resolve operand = .ok n ↔
        Numeral operand.toList n ∧ n < literalBound := by
      intro n
      rw [resolved]
      constructor
      · rintro ⟨numeral | signed, fits⟩
        · exact ⟨numeral, fits⟩
        · exact absurd signed (unsigned n fits)
      · rintro ⟨numeral, fits⟩
        exact ⟨.inl numeral, fits⟩
    refine ⟨documented, ?_⟩
    intro beyond
    apply otherwise.resolve_left
    rintro ⟨n, read⟩
    obtain ⟨numeral, fits⟩ := (documented n).mp read
    exact absurd (beyond n numeral) (Nat.not_le.mpr fits)
  · intro unread
    exact otherwise.resolve_left (not_exists.mpr unread)

/-- Two loads of one number, where the second one has a sign behind the mark. -/
def markedLoads : List Char := "MOVLW 0x1F\nMOVLW 0x+1F".toList

/-- Both are read as the same number, but only the first one is written as documented. -/
theorem markedLoads_read :
    ∃ program l, Program.ofSource markedLoads = .ok program ∧ Layout.ofProgram program = .ok l ∧
      l.code = .ok [⟨0x04, 31⟩, ⟨0x04, 31⟩, Word.halt] ∧ l.main.FollowsGrammar "0x1F" ∧
      ¬ l.main.FollowsGrammar "0x+1F" := by
  have facts : ∃ program, Program.ofSource markedLoads = .ok program ∧
      ∃ l, Layout.ofProgram program = .ok l ∧
        l.code = .ok [⟨0x04, 31⟩, ⟨0x04, 31⟩, Word.halt] ∧ l.main.resolve "0x+1F" = .ok 31 := by
    decide +kernel
  obtain ⟨program, source, l, placed, code, signed⟩ := facts
  have reads := unnamed_operands_are_numerals markedLoads program l source placed l.main
    List.mem_cons_self
  refine ⟨program, l, source, placed, code, ?_, ?_⟩
  · rw [(reads "0x1F" (by decide +kernel)).1]
    intro n _ signed
    have absent : '+' ∉ "0x1F".toList ∧ '-' ∉ "0x1F".toList := by decide +kernel
    exact signed.sign.elim absent.1 absent.2
  · intro follows
    have numeral := ((follows.denotes 31).mp signed).1
    have present : '+' ∈ "0x+1F".toList := by decide +kernel
    exact numeral.plain.1 present

/-- A sign behind a mark is read, although no literal is documented to have one. -/
theorem marked_sign_is_read :
    ¬ ∀ (text : List Char) (program : Program) (l : Layout),
      Program.ofSource text = .ok program → Layout.ofProgram program = .ok l →
      ∀ p ∈ l.placements, ∀ operand, Text.isIdentifier operand = false →
        p.FollowsGrammar operand := by
  intro documented
  have facts : ∃ program, Program.ofSource markedLoads = .ok program ∧
      ∃ l, Layout.ofProgram program = .ok l ∧ l.main.resolve "0x+1F" = .ok 31 := by
    decide +kernel
  obtain ⟨program, source, l, placed, signed⟩ := facts
  have follows := documented markedLoads program l source placed l.main List.mem_cons_self "0x+1F"
    (by decide +kernel)
  have numeral := ((follows.denotes 31).mp signed).1
  have present : '+' ∈ "0x+1F".toList := by decide +kernel
  exact numeral.plain.1 present

end Accumulator

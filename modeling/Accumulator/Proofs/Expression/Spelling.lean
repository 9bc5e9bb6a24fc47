import Accumulator.Proofs.Expression.Grammar
import Accumulator.Proofs.Text.Character
import Accumulator.Proofs.Text.Numeral
import Mathlib.Algebra.Ring.Nat
import Mathlib.Data.List.Chain

set_option autoImplicit false

/-!
Expressions as lexemes. The lexemes of a text spell it out, blanks apart, and those of an expression
are its tokens: no two of them run together, since the grammar has an operator between numbers. So a
text is an expression with a grouping exactly if its lexemes are one (`derivable_iff`).
-/

namespace Accumulator.Expression

def Lexeme.text : Lexeme → List Char
  | .number digits => digits
  | .shiftLeft => ['<', '<']
  | .shiftRight => ['>', '>']
  | .symbol c => [c]

def Operator.lexeme : Operator → Lexeme
  | .or => .symbol '|'
  | .xor => .symbol '^'
  | .and => .symbol '&'
  | .shiftLeft => .shiftLeft
  | .shiftRight => .shiftRight
  | .add => .symbol '+'
  | .sub => .symbol '-'
  | .mul => .symbol '*'
  | .div => .symbol '/'
  | .rem => .symbol '%'

@[simp] theorem Operator.text_lexeme (op : Operator) : op.lexeme.text = op.text := by
  cases op <;> rfl

/-- The phrases of a level as lexemes. -/
inductive Forms : Level → List Lexeme → Tree → Prop
  | next (level tighter : Level) (ls : List Lexeme) (t : Tree)
      (step : level.next? = some tighter) (inner : Forms tighter ls t) : Forms level ls t
  | binary (level tighter : Level) (op : Operator) (ls rs : List Lexeme) (l r : Tree)
      (step : level.next? = some tighter) (member : op ∈ level.operators)
      (before : Forms level ls l) (behind : Forms tighter rs r) :
      Forms level (ls ++ op.lexeme :: rs) (.binary op l r)
  | signed (s : Sign) (ls : List Lexeme) (t : Tree) (inner : Forms .unary ls t) :
      Forms .unary (.symbol s.char :: ls) (.signed s t)
  | number (digits : List Char) :
      Forms .primary [.number digits] (.number (Text.ofDigits 10 digits))
  | group (ls : List Lexeme) (t : Tree) (inner : Forms .or ls t) :
      Forms .primary (.symbol '(' :: (ls ++ [.symbol ')'])) t

/-- A lexeme that can stand in a text. -/
def Lexeme.Written : Lexeme → Prop
  | .number digits => digits ≠ [] ∧ ∀ c ∈ digits, c.isDigit = true
  | .symbol c => Text.isBlank c = false ∧ c.isDigit = false
  | .shiftLeft | .shiftRight => True

/-- Lexemes and a text that consists of them, with blanks behind each. -/
inductive Spells : List Lexeme → List Char → Prop
  | nil : Spells [] []
  | cons (x : Lexeme) (ls : List Lexeme) (blanks rest : List Char) (written : x.Written)
      (blank : Blanks blanks) (tail : Spells ls rest) :
      Spells (x :: ls) (x.text ++ (blanks ++ rest))

theorem Spells.append {ls rs : List Lexeme} {left right : List Char} (before : Spells ls left)
    (behind : Spells rs right) : Spells (ls ++ rs) (left ++ right) := by
  induction before with
  | nil => exact behind
  | cons x ls blanks rest written blank _ ih =>
    rw [List.cons_append, List.append_assoc, List.append_assoc]
    exact .cons x _ blanks _ written blank ih

theorem Spells.of_append {ls rs : List Lexeme} {text : List Char} (spells : Spells (ls ++ rs) text) :
    ∃ left right, text = left ++ right ∧ Spells ls left ∧ Spells rs right := by
  induction ls generalizing text with
  | nil => exact ⟨[], text, rfl, .nil, spells⟩
  | cons x ls ih =>
    cases spells with
    | cons _ _ blanks rest written blank tail =>
      obtain ⟨left, right, rfl, before, behind⟩ := ih tail
      refine ⟨x.text ++ (blanks ++ left), right, ?_, .cons x ls blanks left written blank before,
        behind⟩
      simp only [List.append_assoc]

section Characters

theorem not_blank_of_isDigit (c : Char) (digit : c.isDigit = true) : Text.isBlank c = false :=
  Text.inRanges_apart [(0x30, 0x39)] Text.blankRanges (by decide) c
    (Text.inRanges_of_isDigit c digit)

theorem not_isDigit_of_blank (c : Char) (blank : Text.isBlank c = true) : c.isDigit = false := by
  cases digit : c.isDigit with
  | false => rfl
  | true =>
    rw [not_blank_of_isDigit c digit] at blank
    cases blank

theorem blanks_space : Blanks [' '] := by
  intro c member
  rw [List.mem_singleton.mp member]
  decide

/-- The characters of tokens that are no numbers. -/
def tokenChars : List Char :=
  ['|', '^', '&', '<', '>', '+', '-', '*', '/', '%', '~', '(', ')']

theorem tokenChars_apart (c : Char) (member : c ∈ tokenChars) :
    Text.isBlank c = false ∧ c.isDigit = false := by
  have all : tokenChars.all (fun c => !Text.isBlank c && !c.isDigit) = true := by decide
  simpa using List.all_eq_true.mp all c member

/-- A few ranges around the characters of tokens that are no numbers. -/
def tokenRanges : List (Nat × Nat) :=
  [(0x25, 0x2F), (0x3C, 0x3E), (0x5E, 0x5E), (0x7C, 0x7C), (0x7E, 0x7E)]

/-- The ranges of what may be in an expression. -/
def plainRanges : List (Nat × Nat) :=
  [(0x30, 0x39)] ++ tokenRanges ++ Text.blankRanges

theorem not_alphabetic_of_plain {ranges : List (Nat × Nat)} (plain : ranges ⊆ plainRanges) (c : Char)
    (inside : Text.inRanges ranges c = true) : Text.isAlphabetic c = false := by
  obtain ⟨r, member, within⟩ := List.any_eq_true.mp inside
  exact Text.inRanges_apart plainRanges Text.alphabeticRanges (by decide +kernel) c
    (List.any_eq_true.mpr ⟨r, plain member, within⟩)

theorem tokenChars_not_alphabetic (c : Char) (member : c ∈ tokenChars) :
    Text.isAlphabetic c = false := by
  have all : tokenChars.all (Text.inRanges tokenRanges) = true := by decide
  exact not_alphabetic_of_plain
    (List.subset_append_of_subset_left _ (List.subset_append_right _ _)) c
    (List.all_eq_true.mp all c member)

theorem not_alphabetic_of_isDigit (c : Char) (digit : c.isDigit = true) :
    Text.isAlphabetic c = false :=
  not_alphabetic_of_plain (List.subset_append_of_subset_left _ (List.subset_append_left _ _)) c
    (Text.inRanges_of_isDigit c digit)

theorem not_alphabetic_of_blank (c : Char) (blank : Text.isBlank c = true) :
    Text.isAlphabetic c = false :=
  not_alphabetic_of_plain (List.subset_append_right _ _) c blank

theorem Operator.text_subset (op : Operator) (c : Char) (member : c ∈ op.text) :
    c ∈ tokenChars := by
  have all : op.text.all tokenChars.contains = true := by cases op <;> decide
  simpa using List.all_eq_true.mp all c member

theorem Sign.char_mem (s : Sign) : s.char ∈ tokenChars := by
  cases s <;> decide

/-- A phrase has no letters. -/
theorem Derives.not_alphabetic {level : Level} {phrase : List Char} {t : Tree}
    (derives : Derives level phrase t) : ∀ c ∈ phrase, Text.isAlphabetic c = false := by
  induction derives with
  | next _ _ _ _ _ _ ih => exact ih
  | binary _ _ op left blanks right _ _ _ _ blank _ _ before behind =>
    intro c member
    simp only [List.mem_append] at member
    rcases member with ((first | operator) | between) | last
    · exact before c first
    · exact tokenChars_not_alphabetic c (op.text_subset c operator)
    · exact not_alphabetic_of_blank c (blank c between)
    · exact behind c last
  | signed s blanks operand _ blank _ ih =>
    intro c member
    simp only [List.cons_append, List.mem_cons, List.mem_append] at member
    rcases member with rfl | between | last
    · exact tokenChars_not_alphabetic _ s.char_mem
    · exact not_alphabetic_of_blank c (blank c between)
    · exact ih c last
  | number digits blanks _ digital blank =>
    intro c member
    rcases List.mem_append.mp member with digit | behind
    · exact not_alphabetic_of_isDigit c (digital c digit)
    · exact not_alphabetic_of_blank c (blank c behind)
  | group blanks phrase trailing _ blank last _ ih =>
    intro c member
    simp only [List.cons_append, List.mem_cons, List.mem_append] at member
    rcases member with rfl | (between | inside) | rfl | behind
    · exact tokenChars_not_alphabetic _ (by decide)
    · exact not_alphabetic_of_blank c (blank c between)
    · exact ih c inside
    · exact tokenChars_not_alphabetic _ (by decide)
    · exact not_alphabetic_of_blank c (last c behind)

end Characters

section Numbers

theorem ofDigitChars_eq_decimal (digits : List Char) :
    Nat.ofDigitChars 10 digits 0 = decimal digits := by
  induction digits with
  | nil => rfl
  | cons digit digits ih =>
    rw [Nat.ofDigitChars_cons, Nat.mul_zero, Nat.zero_add, Nat.ofDigitChars_eq_ofDigitChars_zero, ih,
      Nat.mul_comm]
    rfl

theorem ofDigits_eq_decimal (digits : List Char) (digital : ∀ c ∈ digits, c.isDigit = true) :
    Text.ofDigits 10 digits = decimal digits := by
  unfold Text.ofDigits
  rw [Text.foldl_digitValue 10 digits digital, ofDigitChars_eq_decimal]

end Numbers

theorem Operator.written_lexeme (op : Operator) : op.lexeme.Written := by
  cases op with
  | shiftLeft | shiftRight => trivial
  | or | xor | and | add | sub | mul | div | rem => exact tokenChars_apart _ (by decide)

/-- A phrase is spelled out by lexemes of the same level and grouping. -/
theorem Derives.forms {level : Level} {phrase : List Char} {t : Tree}
    (derives : Derives level phrase t) : ∃ ls, Forms level ls t ∧ Spells ls phrase := by
  induction derives with
  | next level tighter phrase t step _ ih =>
    obtain ⟨ls, forms, spells⟩ := ih
    exact ⟨ls, .next level tighter ls t step forms, spells⟩
  | binary level tighter op left blanks right l r step member blank _ _ before behind =>
    obtain ⟨ls, formed, first⟩ := before
    obtain ⟨rs, other, second⟩ := behind
    refine ⟨ls ++ op.lexeme :: rs, .binary level tighter op ls rs l r step member formed other, ?_⟩
    have operator := Spells.cons op.lexeme rs blanks right op.written_lexeme blank second
    rw [op.text_lexeme] at operator
    have spells := first.append operator
    rwa [List.append_assoc, List.append_assoc]
  | signed s blanks operand t blank _ ih =>
    obtain ⟨ls, forms, spells⟩ := ih
    refine ⟨.symbol s.char :: ls, .signed s ls t forms, ?_⟩
    exact .cons (.symbol s.char) ls blanks operand (tokenChars_apart _ s.char_mem) blank spells
  | number digits blanks some digital blank =>
    refine ⟨[.number digits], ?_, ?_⟩
    · rw [← ofDigits_eq_decimal digits digital]
      exact .number digits
    · have spells := Spells.cons (.number digits) [] blanks [] ⟨some, digital⟩ blank .nil
      rwa [List.append_nil] at spells
  | group blanks phrase trailing t blank last _ ih =>
    obtain ⟨ls, forms, spells⟩ := ih
    refine ⟨.symbol '(' :: (ls ++ [.symbol ')']), .group ls t forms, ?_⟩
    have close := Spells.cons (.symbol ')') [] trailing [] (tokenChars_apart _ (by decide)) last
      .nil
    rw [List.append_nil] at close
    have opened := Spells.cons (.symbol '(') _ blanks _ (tokenChars_apart _ (by decide)) blank
      (spells.append close)
    simpa [Lexeme.text] using opened

/-- Whatever spells out the lexemes of a phrase is a phrase. -/
theorem Forms.derives {level : Level} {ls : List Lexeme} {t : Tree} (forms : Forms level ls t) :
    ∀ phrase, Spells ls phrase → Derives level phrase t := by
  induction forms with
  | next level tighter ls t step _ ih =>
    intro phrase spells
    exact .next level tighter phrase t step (ih phrase spells)
  | binary level tighter op ls rs l r step member _ _ before behind =>
    intro phrase spells
    obtain ⟨left, others, rfl, first, second⟩ := spells.of_append
    cases second with
    | cons _ _ blanks right written blank tail =>
      rw [op.text_lexeme, ← List.append_assoc, ← List.append_assoc]
      exact .binary level tighter op left blanks right l r step member blank (before left first)
        (behind right tail)
  | signed s ls t _ ih =>
    intro phrase spells
    cases spells with
    | cons _ _ blanks operand written blank tail =>
      exact .signed s blanks operand t blank (ih operand tail)
  | number digits =>
    intro phrase spells
    cases spells with
    | cons _ _ blanks rest written blank tail =>
      cases tail with
      | nil =>
        rw [List.append_nil, ofDigits_eq_decimal digits written.2]
        exact .number digits blanks written.1 written.2 blank
  | group ls t _ ih =>
    intro phrase spells
    cases spells with
    | cons _ _ blanks rest written blank tail =>
      obtain ⟨inside, close, rfl, first, second⟩ := tail.of_append
      cases second with
      | cons _ _ trailing rest closing last nothing =>
        cases nothing with
        | nil =>
          have group := Derives.group blanks inside trailing t blank last (ih inside first)
          simpa [Lexeme.text] using group

section Scanning

theorem scan_cons (c : Char) (cs : List Char) (left : c ≠ '<') (right : c ≠ '>') :
    Lexeme.scan (c :: cs) =
      if Text.isBlank c then Lexeme.scan cs
      else if c.isDigit then
        Lexeme.consDigit c (cs.head?.any Char.isDigit) (Lexeme.scan cs)
      else .symbol c :: Lexeme.scan cs :=
  Lexeme.scan.eq_4 c cs (fun _ same _ => left same) (fun _ same _ => right same)

theorem scan_blanks (blanks rest : List Char) (blank : Blanks blanks) :
    Lexeme.scan (blanks ++ rest) = Lexeme.scan rest := by
  induction blanks with
  | nil => rfl
  | cons c blanks ih =>
    have here : Text.isBlank c = true := blank c List.mem_cons_self
    have left : c ≠ '<' := by
      rintro rfl
      cases here
    have right : c ≠ '>' := by
      rintro rfl
      cases here
    rw [List.cons_append, scan_cons c _ left right, if_pos here]
    exact ih fun d member => blank d (List.mem_cons_of_mem _ member)

theorem consDigit_apart (digit : Char) (ls : List Lexeme) :
    Lexeme.consDigit digit false ls = .number [digit] :: ls := by
  unfold Lexeme.consDigit
  split <;> rfl

theorem scan_digit (c : Char) (cs : List Char) (digit : c.isDigit = true) :
    Lexeme.scan (c :: cs) =
      Lexeme.consDigit c (cs.head?.any Char.isDigit) (Lexeme.scan cs) := by
  have left : c ≠ '<' := by
    rintro rfl
    cases digit
  have right : c ≠ '>' := by
    rintro rfl
    cases digit
  have solid : ¬ Text.isBlank c = true := by
    rw [not_blank_of_isDigit c digit]
    exact Bool.false_ne_true
  rw [scan_cons c cs left right, if_neg solid, if_pos digit]

/-- Digits up to a character that is none make up one number. -/
theorem scan_digits (digits rest : List Char) (some : digits ≠ [])
    (digital : ∀ c ∈ digits, c.isDigit = true) (ends : rest.head?.any Char.isDigit = false) :
    Lexeme.scan (digits ++ rest) = .number digits :: Lexeme.scan rest := by
  induction digits with
  | nil => exact absurd rfl some
  | cons c digits ih =>
    have digit : c.isDigit = true := digital c List.mem_cons_self
    rw [List.cons_append, scan_digit c _ digit]
    cases digits with
    | nil => rw [List.nil_append, ends, consDigit_apart]
    | cons d digits =>
      have adjacent : d.isDigit = true := digital d (by simp)
      have scanned := ih (List.cons_ne_nil d digits)
        fun e member => digital e (List.mem_cons_of_mem _ member)
      rw [scanned, List.cons_append, List.head?_cons, Option.any_some, adjacent]
      rfl

/-- A text that begins with a digit begins with a number. -/
theorem Spells.number_first {ls : List Lexeme} {phrase : List Char} (spells : Spells ls phrase)
    (digit : phrase.head?.any Char.isDigit = true) :
    ∃ digits rs blanks rest, ls = .number digits :: rs ∧ phrase = digits ++ (blanks ++ rest) ∧
      (Lexeme.number digits).Written ∧ Blanks blanks ∧ Spells rs rest := by
  cases spells with
  | nil => cases digit
  | cons x rs blanks rest written blank tail =>
    cases x with
    | number digits => exact ⟨digits, rs, blanks, rest, rfl, rfl, written, blank, tail⟩
    | shiftLeft | shiftRight => cases digit
    | symbol c =>
      have solid : c.isDigit = false := written.2
      change c.isDigit = true at digit
      rw [solid] at digit
      cases digit

/-- Every text is spelled out by its lexemes, behind the blanks that it begins with. -/
theorem spells_scan (text : List Char) :
    ∃ blanks phrase, Blanks blanks ∧ text = blanks ++ phrase ∧
      Spells (Lexeme.scan text) phrase := by
  induction text using Lexeme.scan.induct with
  | case1 => exact ⟨[], [], nofun, rfl, .nil⟩
  | case2 cs ih =>
    obtain ⟨blanks, phrase, blank, rfl, spells⟩ := ih
    exact ⟨[], _, nofun, rfl, .cons .shiftLeft _ blanks phrase trivial blank spells⟩
  | case3 cs ih =>
    obtain ⟨blanks, phrase, blank, rfl, spells⟩ := ih
    exact ⟨[], _, nofun, rfl, .cons .shiftRight _ blanks phrase trivial blank spells⟩
  | case4 c cs left right here ih =>
    obtain ⟨blanks, phrase, blank, rfl, spells⟩ := ih
    refine ⟨c :: blanks, phrase, ?_, rfl, ?_⟩
    · intro d member
      rcases List.mem_cons.mp member with rfl | later
      · exact here
      · exact blank d later
    · rw [Lexeme.scan.eq_4 c _ left right, if_pos here]
      exact spells
  | case5 c cs left right solid digit ih =>
    obtain ⟨blanks, phrase, blank, same, spells⟩ := ih
    refine ⟨[], c :: cs, nofun, rfl, ?_⟩
    rw [scan_digit c cs digit]
    by_cases adjacent : cs.head?.any Char.isDigit = true
    · obtain rfl : blanks = [] := by
        cases blanks with
        | nil => rfl
        | cons d blanks =>
          have here : Text.isBlank d = true := blank d List.mem_cons_self
          rw [same, List.cons_append, List.head?_cons, Option.any_some,
            not_isDigit_of_blank d here] at adjacent
          cases adjacent
      rw [List.nil_append] at same
      subst same
      obtain ⟨digits, ls, between, rest, scanned, rfl, written, between', tail⟩ :=
        spells.number_first adjacent
      rw [adjacent, scanned]
      refine .cons (.number (c :: digits)) ls between rest ⟨List.cons_ne_nil c digits, ?_⟩ between'
        tail
      intro d member
      rcases List.mem_cons.mp member with rfl | later
      · exact digit
      · exact written.2 d later
    · rw [Bool.eq_false_iff.mpr adjacent, consDigit_apart, same]
      refine .cons (.number [c]) _ blanks phrase ⟨List.cons_ne_nil c [], ?_⟩ blank (same ▸ spells)
      simpa using digit
  | case6 c cs left right solid noDigit ih =>
    obtain ⟨blanks, phrase, blank, rfl, spells⟩ := ih
    refine ⟨[], _, nofun, rfl, ?_⟩
    rw [Lexeme.scan.eq_4 c _ left right, if_neg solid, if_neg noDigit]
    exact .cons (.symbol c) _ blanks phrase
      ⟨Bool.eq_false_iff.mpr solid, Bool.eq_false_iff.mpr noDigit⟩ blank spells

/-- Lexemes that are the tokens of an expression: no angle bracket stands alone. -/
def Lexeme.IsToken : Lexeme → Prop
  | .symbol c => c ≠ '<' ∧ c ≠ '>'
  | .number _ | .shiftLeft | .shiftRight => True

def Lexeme.IsNumber : Lexeme → Prop
  | .number _ => True
  | .symbol _ | .shiftLeft | .shiftRight => False

/-- Two numbers in a row would be read as one where no blank is between them. -/
def Separate (x y : Lexeme) : Prop := ¬ (x.IsNumber ∧ y.IsNumber)

theorem Spells.ends_number {x : Lexeme} {ls : List Lexeme} {blanks rest : List Char}
    (number : x.IsNumber) (blank : Blanks blanks) (spells : Spells ls rest)
    (separate : ∀ y ∈ ls.head?, Separate x y) :
    (blanks ++ rest).head?.any Char.isDigit = false := by
  cases blanks with
  | cons c blanks => exact not_isDigit_of_blank c (blank c List.mem_cons_self)
  | nil =>
    rw [List.nil_append, Bool.eq_false_iff]
    intro digit
    obtain ⟨digits, rs, _, _, rfl, _⟩ := spells.number_first digit
    exact separate (.number digits) rfl ⟨number, trivial⟩

/-- Scanning a text finds the tokens that spell it out. -/
theorem scan_of_spells {ls : List Lexeme} {phrase : List Char} (spells : Spells ls phrase)
    (tokens : ∀ x ∈ ls, x.IsToken) (separate : ls.IsChain Separate) :
    Lexeme.scan phrase = ls := by
  induction spells with
  | nil => rfl
  | cons x ls blanks rest written blank tail ih =>
    rw [List.isChain_cons] at separate
    have behind : Lexeme.scan (blanks ++ rest) = ls := by
      rw [scan_blanks blanks rest blank]
      exact ih (fun y member => tokens y (List.mem_cons_of_mem _ member)) separate.2
    cases x with
    | number digits =>
      have ends := tail.ends_number (x := .number digits) trivial blank separate.1
      change Lexeme.scan (digits ++ (blanks ++ rest)) = _
      rw [scan_digits digits _ written.1 written.2 ends, behind]
    | shiftLeft | shiftRight => exact congrArg (List.cons _) behind
    | symbol c =>
      have token : c ≠ '<' ∧ c ≠ '>' := tokens (.symbol c) List.mem_cons_self
      change Lexeme.scan (c :: (blanks ++ rest)) = _
      rw [scan_cons c _ token.1 token.2, if_neg (Bool.eq_false_iff.mp written.1),
        if_neg (Bool.eq_false_iff.mp written.2), behind]

end Scanning

theorem Operator.lexeme_isToken (op : Operator) : op.lexeme.IsToken := by
  cases op with
  | shiftLeft | shiftRight => trivial
  | or | xor | and | add | sub | mul | div | rem => exact ⟨by decide, by decide⟩

theorem Forms.isToken {level : Level} {ls : List Lexeme} {t : Tree} (forms : Forms level ls t) :
    ∀ x ∈ ls, x.IsToken := by
  induction forms with
  | next _ _ _ _ _ _ ih => exact ih
  | binary _ _ op ls rs _ _ _ _ _ _ before behind =>
    intro x member
    simp only [List.mem_append, List.mem_cons] at member
    rcases member with first | rfl | last
    · exact before x first
    · exact op.lexeme_isToken
    · exact behind x last
  | signed s ls _ _ ih =>
    intro x member
    rcases List.mem_cons.mp member with rfl | later
    · cases s <;> exact ⟨by decide, by decide⟩
    · exact ih x later
  | number digits =>
    intro x member
    obtain rfl := List.mem_singleton.mp member
    trivial
  | group ls _ _ ih =>
    intro x member
    simp only [List.mem_cons, List.mem_append, List.not_mem_nil, or_false] at member
    rcases member with rfl | inside | rfl
    · exact ⟨by decide, by decide⟩
    · exact ih x inside
    · exact ⟨by decide, by decide⟩

theorem Operator.lexeme_not_isNumber (op : Operator) : ¬ op.lexeme.IsNumber := by
  cases op <;> exact id

theorem Forms.separate {level : Level} {ls : List Lexeme} {t : Tree} (forms : Forms level ls t) :
    ls.IsChain Separate := by
  induction forms with
  | next _ _ _ _ _ _ ih => exact ih
  | binary _ _ op ls rs _ _ _ _ _ _ before behind =>
    rw [List.isChain_append, List.isChain_cons]
    refine ⟨before, ⟨fun y _ both => op.lexeme_not_isNumber both.1, behind⟩, ?_⟩
    intro x _ y first both
    cases first
    exact op.lexeme_not_isNumber both.2
  | signed s ls _ _ ih =>
    rw [List.isChain_cons]
    exact ⟨fun y _ both => both.1, ih⟩
  | number digits => exact List.isChain_singleton _
  | group ls _ _ ih =>
    rw [List.isChain_cons, List.isChain_append]
    refine ⟨fun y _ both => both.1, ih, List.isChain_singleton _, ?_⟩
    intro x _ y first both
    cases first
    exact both.2

/-- A text is an expression with a grouping exactly if its lexemes are. -/
theorem derivable_iff (text : List Char) (t : Tree) :
    Derivable text t ↔ Forms .or (Lexeme.scan text) t := by
  constructor
  · rintro ⟨blanks, phrase, blank, rfl, derives⟩
    obtain ⟨ls, forms, spells⟩ := derives.forms
    rw [scan_blanks blanks phrase blank, scan_of_spells spells forms.isToken forms.separate]
    exact forms
  · intro forms
    obtain ⟨blanks, phrase, blank, split, spells⟩ := spells_scan text
    exact ⟨blanks, phrase, blank, split, forms.derives phrase spells⟩

end Accumulator.Expression

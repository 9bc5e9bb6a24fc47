import Accumulator.Proofs.Expression.Reading

set_option autoImplicit false

/-!
Expressions put together from pieces. Pieces joined by blanks keep their lexemes; pieces joined without
blanks keep them as well, unless two digits or two angle brackets meet at a border. Such a border stands
in no expression (`seamless_of_value`), so leaving the blanks out keeps every value, and
gives one only where lexemes grow together.
-/

namespace Accumulator.Expression

/-- Two characters that belong to one lexeme if nothing stands between them. -/
def Joins (c d : Char) : Prop :=
  (c.isDigit = true ∧ d.isDigit = true) ∨ (c = '<' ∧ d = '<') ∨ (c = '>' ∧ d = '>')

/-- No lexeme goes on from one text into the next. -/
def Parted (left right : List Char) : Prop :=
  ∀ c ∈ left.getLast?, ∀ d ∈ right.head?, ¬ Joins c d

/-- Pieces among which no lexeme goes on from those before a border to those behind it. -/
def Seamless (pieces : List (List Char)) : Prop :=
  ∀ before behind, pieces = before ++ behind → Parted before.flatten behind.flatten

theorem Parted.behind {left right : List Char} {c : Char} (parted : Parted (c :: left) right) :
    Parted left right := by
  intro d last e first
  apply parted d _ e first
  rw [Option.mem_def] at last ⊢
  rw [List.getLast?_cons, last, Option.getD_some]

/-- A bracket that stands alone in a text stands alone in a longer one. -/
theorem Parted.lone {c bracket : Char} {cs right : List Char} (parted : Parted (c :: cs) right)
    (joins : Joins bracket bracket) (alone : ∀ rest, c = bracket → cs = bracket :: rest → False) :
    ∀ rest, c = bracket → cs ++ right = bracket :: rest → False := by
  rintro rest rfl follows
  cases cs with
  | nil =>
    rw [List.nil_append] at follows
    rw [follows] at parted
    exact parted c rfl c rfl joins
  | cons d cs =>
    obtain ⟨same, _⟩ := List.cons.inj follows
    exact alone cs rfl (congrArg (· :: cs) same)

theorem consDigit_append (digit : Char) (adjacent : Bool) (ls rest : List Lexeme)
    (filled : adjacent = true → ls ≠ []) :
    Lexeme.consDigit digit adjacent (ls ++ rest) = Lexeme.consDigit digit adjacent ls ++ rest := by
  cases adjacent with
  | false => rw [consDigit_apart, consDigit_apart, List.cons_append]
  | true =>
    obtain ⟨x, ls, rfl⟩ := List.exists_cons_of_ne_nil (filled rfl)
    cases x <;> rfl

theorem scan_digit_ne_nil {c : Char} (cs : List Char) (digit : c.isDigit = true) :
    Lexeme.scan (c :: cs) ≠ [] := by
  rw [scan_digit c cs digit]
  unfold Lexeme.consDigit
  split
  · split <;> exact List.cons_ne_nil _ _
  · exact List.cons_ne_nil _ _

/-- Texts that are parted have their lexemes one after the other. -/
theorem scan_append (left right : List Char) (parted : Parted left right) :
    Lexeme.scan (left ++ right) = Lexeme.scan left ++ Lexeme.scan right := by
  induction left using Lexeme.scan.induct with
  | case1 => rfl
  | case2 cs ih => exact congrArg (Lexeme.shiftLeft :: ·) (ih parted.behind.behind)
  | case3 cs ih => exact congrArg (Lexeme.shiftRight :: ·) (ih parted.behind.behind)
  | case4 c cs _ _ blank ih =>
    have here : Blanks [c] := by simpa [Blanks] using blank
    have whole := scan_blanks [c] (cs ++ right) here
    have alone := scan_blanks [c] cs here
    rw [List.singleton_append] at whole alone
    rw [List.cons_append, whole, alone, ih parted.behind]
  | case5 c cs _ _ _ digit ih =>
    rw [List.cons_append, scan_digit c _ digit, scan_digit c _ digit, ih parted.behind]
    cases cs with
    | nil =>
      have ends : right.head?.any Char.isDigit = false := by
        cases right with
        | nil => rfl
        | cons d right =>
          have apart := parted c rfl d rfl
          exact Bool.eq_false_iff.mpr fun also => apart (Or.inl ⟨digit, also⟩)
      rw [List.nil_append, ends]
      exact consDigit_append c false [] _ fun never => absurd never Bool.false_ne_true
    | cons d cs => exact consDigit_append c _ _ _ (scan_digit_ne_nil cs)
  | case6 c cs left right solid noDigit ih =>
    have leftward := parted.lone (Or.inr (Or.inl ⟨rfl, rfl⟩)) left
    have rightward := parted.lone (Or.inr (Or.inr ⟨rfl, rfl⟩)) right
    rw [List.cons_append, Lexeme.scan.eq_4 c _ leftward rightward, Lexeme.scan.eq_4 c cs left right,
      if_neg solid, if_neg noDigit, if_neg solid, if_neg noDigit, ih parted.behind]
    rfl

section Borders

theorem Lexeme.Written.text_ne_nil {x : Lexeme} (written : x.Written) : x.text ≠ [] := by
  cases x with
  | number digits => exact written.1
  | shiftLeft | shiftRight | symbol => exact List.cons_ne_nil _ _

/-- The lexeme that a text begins with. -/
theorem scan_first {text : List Char} {d : Char} (first : text.head? = some d)
    (solid : Text.isBlank d = false) :
    ∃ y rest, Lexeme.scan text = y :: rest ∧ y.Written ∧ y.text.head? = some d := by
  obtain ⟨blanks, phrase, blank, rfl, spells⟩ := spells_scan text
  cases blanks with
  | cons c blanks =>
    obtain rfl := Option.some.inj first
    rw [blank c List.mem_cons_self] at solid
    cases solid
  | nil =>
    rw [List.nil_append] at first spells ⊢
    generalize Lexeme.scan phrase = ls at spells
    cases spells with
    | nil => cases first
    | cons y rest between behind written _ _ =>
      refine ⟨y, rest, rfl, written, ?_⟩
      cases y with
      | number digits =>
        obtain ⟨e, digits, rfl⟩ := List.exists_cons_of_ne_nil written.1
        exact first
      | shiftLeft | shiftRight | symbol => exact first

/-- The lexeme that a text ends with. -/
theorem scan_last {text : List Char} {c : Char} (last : text.getLast? = some c)
    (solid : Text.isBlank c = false) :
    ∃ front x, Lexeme.scan text = front ++ [x] ∧ x.Written ∧ x.text.getLast? = some c := by
  obtain ⟨blanks, phrase, blank, rfl, spells⟩ := spells_scan text
  have unblank (behind : List Char) (allBlank : Blanks behind) : behind.getLast? ≠ some c := by
    intro same
    rw [allBlank c (List.mem_of_getLast? same)] at solid
    cases solid
  rcases List.eq_nil_or_concat (Lexeme.scan (blanks ++ phrase)) with none | ⟨front, x, split⟩
  · rw [none] at spells
    cases spells
    rw [List.append_nil] at last
    exact absurd last (unblank blanks blank)
  · rw [List.concat_eq_append] at split
    rw [split] at spells
    obtain ⟨left, right, rfl, _, ending⟩ := spells.of_append
    cases ending with
    | cons _ _ between rest written trailing nothing =>
      cases nothing
      refine ⟨front, x, split, written, ?_⟩
      -- The character is the last of the lexeme, as no blank stands behind it.
      rw [List.append_nil, List.getLast?_append, List.getLast?_append, List.getLast?_append] at last
      cases behind : between.getLast? with
      | some e =>
        rw [behind] at last
        exact absurd (behind.trans last) (unblank between trailing)
      | none =>
        rw [behind, Option.none_or] at last
        cases own : x.text.getLast? with
        | none => exact absurd (List.getLast?_eq_none_iff.mp own) written.text_ne_nil
        | some e =>
          rw [own] at last
          exact last

end Borders

section Expressions

def Lexeme.IsShift : Lexeme → Prop
  | .shiftLeft | .shiftRight => True
  | .number _ | .symbol _ => False

/-- A phrase begins and ends with something else than a shift, so no two shifts stand side by side. -/
theorem Forms.shifts_apart {level : Level} {ls : List Lexeme} {t : Tree} (forms : Forms level ls t) :
    (∃ x, ls.head? = some x ∧ ¬ x.IsShift) ∧ (∃ x, ls.getLast? = some x ∧ ¬ x.IsShift) ∧
      ls.IsChain fun x y => ¬ (x.IsShift ∧ y.IsShift) := by
  induction forms with
  | next _ _ _ _ _ _ ih => exact ih
  | binary _ _ op ls rs _ _ _ _ _ _ before behind =>
    obtain ⟨⟨x, first, opens⟩, ⟨y, ends, closes⟩, chain⟩ := before
    obtain ⟨⟨z, begins, plain⟩, ⟨w, last, complete⟩, others⟩ := behind
    refine ⟨⟨x, by rw [List.head?_append, first, Option.some_or], opens⟩,
      ⟨w, by rw [List.getLast?_append, List.getLast?_cons, last]; rfl, complete⟩, ?_⟩
    rw [List.isChain_append, List.isChain_cons]
    refine ⟨chain, ⟨?_, others⟩, ?_⟩
    · intro v member both
      rw [begins] at member
      cases member
      exact plain both.2
    · intro v member _ _ both
      rw [ends] at member
      cases member
      exact closes both.1
  | signed s ls _ _ ih =>
    obtain ⟨_, ⟨y, ends, closes⟩, chain⟩ := ih
    refine ⟨⟨.symbol s.char, rfl, id⟩, ⟨y, by rw [List.getLast?_cons, ends]; rfl, closes⟩, ?_⟩
    rw [List.isChain_cons]
    exact ⟨fun _ _ both => both.1, chain⟩
  | number digits => exact ⟨⟨_, rfl, id⟩, ⟨_, rfl, id⟩, List.isChain_singleton _⟩
  | group ls _ _ ih =>
    obtain ⟨_, _, chain⟩ := ih
    refine ⟨⟨_, rfl, id⟩, ⟨.symbol ')', ?_, id⟩, ?_⟩
    · rw [← List.cons_append, List.getLast?_concat]
    · rw [List.isChain_cons, List.isChain_append]
      refine ⟨fun _ _ both => both.1, chain, List.isChain_singleton _, ?_⟩
      intro _ _ v first both
      cases first
      exact both.2

theorem joins_solid {c d : Char} (joins : Joins c d) :
    Text.isBlank c = false ∧ Text.isBlank d = false := by
  rcases joins with ⟨first, second⟩ | ⟨rfl, rfl⟩ | ⟨rfl, rfl⟩
  · exact ⟨not_blank_of_isDigit c first, not_blank_of_isDigit d second⟩
  · exact ⟨by decide, by decide⟩
  · exact ⟨by decide, by decide⟩

/-- Among the tokens of expressions only numbers have digits, and only shifts angle brackets. -/
theorem token_of_char {x : Lexeme} {c : Char} (written : x.Written) (token : x.IsToken)
    (member : c ∈ x.text) :
    (c.isDigit = true → x.IsNumber) ∧ (c = '<' ∨ c = '>' → x.IsShift) := by
  cases x with
  | number digits =>
    refine ⟨fun _ => trivial, ?_⟩
    have digit : c.isDigit = true := written.2 c member
    rintro (rfl | rfl)
    · cases digit
    · cases digit
  | shiftLeft | shiftRight =>
    refine ⟨?_, fun _ => trivial⟩
    intro digit
    simp only [Lexeme.text, List.mem_cons, List.not_mem_nil, or_self, or_false] at member
    rw [member] at digit
    cases digit
  | symbol e =>
    obtain rfl := List.mem_singleton.mp member
    refine ⟨?_, ?_⟩
    · intro digit
      rw [written.2] at digit
      cases digit
    · rintro (rfl | rfl)
      · exact absurd rfl token.1
      · exact absurd rfl token.2

/-- The lexeme that pieces begin with, empty pieces aside. -/
theorem pieces_first {pieces : List (List Char)} {d : Char} (first : pieces.flatten.head? = some d)
    (solid : Text.isBlank d = false) :
    ∃ y rest, pieces.flatMap Lexeme.scan = y :: rest ∧ y.Written ∧ y.text.head? = some d := by
  induction pieces with
  | nil => cases first
  | cons piece pieces ih =>
    rw [List.flatten_cons, List.head?_append] at first
    rw [List.flatMap_cons]
    cases own : piece.head? with
    | none =>
      obtain rfl := List.head?_eq_none_iff.mp own
      exact ih first
    | some e =>
      rw [own, Option.some_or] at first
      obtain ⟨y, rest, scanned, written, begins⟩ := scan_first (own.trans first) solid
      exact ⟨y, rest ++ pieces.flatMap Lexeme.scan, by rw [scanned]; rfl, written, begins⟩

/-- The lexeme that pieces end with, empty pieces aside. -/
theorem pieces_last {pieces : List (List Char)} {c : Char} (last : pieces.flatten.getLast? = some c)
    (solid : Text.isBlank c = false) :
    ∃ front x, pieces.flatMap Lexeme.scan = front ++ [x] ∧ x.Written ∧ x.text.getLast? = some c := by
  induction pieces using List.reverseRecOn with
  | nil => cases last
  | append_singleton pieces piece ih =>
    rw [List.flatten_append, List.flatten_singleton, List.getLast?_append] at last
    rw [List.flatMap_append, List.flatMap_singleton]
    cases own : piece.getLast? with
    | none =>
      obtain rfl := List.getLast?_eq_none_iff.mp own
      rw [Lexeme.scan, List.append_nil]
      exact ih last
    | some e =>
      rw [own, Option.some_or] at last
      obtain ⟨front, x, scanned, written, ends⟩ := scan_last (own.trans last) solid
      exact ⟨pieces.flatMap Lexeme.scan ++ front, x, by rw [scanned, List.append_assoc], written, ends⟩

/-- In an expression no two characters join that have nothing but blanks between them. -/
theorem seamless_of_forms {pieces : List (List Char)} {t : Tree}
    (forms : Forms .or (pieces.flatMap Lexeme.scan) t) : Seamless pieces := by
  rintro before behind rfl c last d first joins
  obtain ⟨solid, other⟩ := joins_solid joins
  obtain ⟨front, x, left, written, ends⟩ := pieces_last last solid
  obtain ⟨y, rest, right, spelled, begins⟩ := pieces_first first other
  rw [List.flatMap_append, left, right] at forms
  have tokens := forms.isToken
  have numbers := forms.separate
  obtain ⟨_, _, shifts⟩ := forms.shifts_apart
  rw [List.isChain_append] at numbers shifts
  have atLast : x ∈ (front ++ [x]).getLast? := List.getLast?_concat
  obtain ⟨number, shift⟩ := token_of_char written (tokens x (by simp)) (List.mem_of_getLast? ends)
  obtain ⟨number', shift'⟩ := token_of_char spelled (tokens y (by simp)) (List.mem_of_head? begins)
  rcases joins with ⟨digit, digit'⟩ | ⟨bracket, bracket'⟩ | ⟨bracket, bracket'⟩
  · exact numbers.2.2 x atLast y rfl ⟨number digit, number' digit'⟩
  · exact shifts.2.2 x atLast y rfl ⟨shift (Or.inl bracket), shift' (Or.inl bracket')⟩
  · exact shifts.2.2 x atLast y rfl ⟨shift (Or.inr bracket), shift' (Or.inr bracket')⟩

end Expressions

section Pieces

theorem Seamless.behind {piece : List Char} {pieces : List (List Char)}
    (seamless : Seamless (piece :: pieces)) : Seamless pieces := by
  rintro before behind rfl c last
  apply seamless (piece :: before) behind rfl c
  rw [Option.mem_def] at last ⊢
  rw [List.flatten_cons, List.getLast?_append, last, Option.some_or]

theorem scan_flatten (pieces : List (List Char)) (seamless : Seamless pieces) :
    Lexeme.scan pieces.flatten = pieces.flatMap Lexeme.scan := by
  induction pieces with
  | nil => rfl
  | cons piece pieces ih =>
    have parted : Parted piece pieces.flatten := by
      simpa using seamless [piece] pieces rfl
    rw [List.flatten_cons, List.flatMap_cons, scan_append piece _ parted, ih seamless.behind]

theorem parted_blank (left right : List Char) : Parted left (' ' :: right) := by
  rintro c _ d first joins
  cases first
  have solid := (joins_solid joins).2
  revert solid
  decide

theorem scan_spaced (pieces : List (List Char)) :
    Lexeme.scan ([' '].intercalate pieces) = pieces.flatMap Lexeme.scan := by
  induction pieces with
  | nil => rfl
  | cons piece pieces ih =>
    cases pieces with
    | nil => simp
    | cons next pieces =>
      have behind := scan_blanks [' '] ([' '].intercalate (next :: pieces)) blanks_space
      rw [List.intercalate_cons_cons, List.append_assoc, List.flatMap_cons, ← ih, ← behind]
      exact scan_append piece _ (parted_blank piece _)

theorem any_spaced (p : Char → Bool) (blank : p ' ' = false) (pieces : List (List Char)) :
    ([' '].intercalate pieces).any p = pieces.flatten.any p := by
  induction pieces with
  | nil => rfl
  | cons piece pieces ih =>
    cases pieces with
    | nil => simp
    | cons next pieces =>
      rw [List.intercalate_cons_cons, List.append_assoc, List.flatten_cons, List.any_append, List.any_append,
        List.any_append, ih, List.any_cons, blank]
      rfl

/-- Where nothing joins, the blanks between the pieces make no difference, not even to a fault. -/
theorem evaluate_spaced {pieces : List (List Char)} (seamless : Seamless pieces) :
    evaluate ([' '].intercalate pieces) = evaluate pieces.flatten := by
  unfold evaluate
  rw [any_spaced _ (not_alphabetic_of_blank ' ' (by decide)), scan_spaced, scan_flatten pieces seamless]

theorem seamless_of_value {pieces : List (List Char)} {n : Int}
    (value : evaluate ([' '].intercalate pieces) = .ok n) : Seamless pieces := by
  obtain ⟨t, derivable⟩ := derivable_of_value value
  have forms := (derivable_iff _ t).mp derivable
  rw [scan_spaced] at forms
  exact seamless_of_forms forms

end Pieces

end Accumulator.Expression

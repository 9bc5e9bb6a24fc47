import Accumulator.Proofs.Checked
import Accumulator.Proofs.Expression.Spelling

set_option autoImplicit false

/-!
The evaluation in one pass against the grammar. A phrase, wherever it stands, contributes the result
of its grouping (`Forms.read`); and what waits on the stack during a successful evaluation is the
beginning of an expression (`Opened`), so that nothing but expressions has a value.
-/

namespace Accumulator.Expression

/-- The levels by number, as the operators have them. -/
def Level.rank : Level → Nat
  | .or => 1
  | .xor => 2
  | .and => 3
  | .shift => 4
  | .sum => 5
  | .product => 6
  | .unary => 7
  | .primary => 8

theorem Level.rank_next {level tighter : Level} (step : level.next? = some tighter) :
    tighter.rank = level.rank + 1 := by
  cases level <;> cases step <;> rfl

theorem Level.rank_operator {level : Level} {op : Operator} (member : op ∈ level.operators) :
    op.level = level.rank := by
  cases level <;> revert op <;> decide

/-- The level that an operator belongs to. -/
def Operator.home : Operator → Level
  | .or => .or
  | .xor => .xor
  | .and => .and
  | .shiftLeft | .shiftRight => .shift
  | .add | .sub => .sum
  | .mul | .div | .rem => .product

theorem Operator.home_spec (op : Operator) :
    op ∈ op.home.operators ∧ op.home.rank = op.level ∧ op.level < 7 := by
  cases op <;> decide

theorem Level.exists_next (level : Level) (loose : level.rank < 8) :
    ∃ tighter, level.next? = some tighter := by
  cases level with
  | primary => exact absurd loose (Nat.lt_irrefl 8)
  | or | xor | and | shift | sum | product | unary => exact ⟨_, rfl⟩

theorem Level.rank_le (level : Level) : level.rank ≤ 8 := by
  cases level <;> decide

theorem Level.eq_of_rank {low high : Level} (same : low.rank = high.rank) : low = high := by
  cases low <;> cases high <;> first | rfl | cases same

/-- A phrase is a phrase of every looser level. -/
theorem Forms.loosen {low high : Level} {ls : List Lexeme} {t : Tree} (forms : Forms high ls t)
    (le : low.rank ≤ high.rank) : Forms low ls t := by
  induction gap : high.rank - low.rank generalizing low with
  | zero =>
    obtain rfl : low = high := Level.eq_of_rank (by omega)
    exact forms
  | succ gap ih =>
    have bound := high.rank_le
    obtain ⟨tighter, step⟩ := low.exists_next (by omega)
    have rank := Level.rank_next step
    exact .next low tighter ls t step (ih (by omega) (by omega))

@[simp] theorem Operator.operator?_lexeme (op : Operator) : op.lexeme.operator? = some op := by
  cases op <;> rfl

theorem Lexeme.eq_of_operator? {x : Lexeme} {op : Operator} (found : x.operator? = some op) :
    x = op.lexeme := by
  cases x with
  | number digits => cases found
  | shiftLeft | shiftRight =>
    cases found
    rfl
  | symbol c =>
    unfold Lexeme.operator? at found
    dsimp only at found
    split at found <;> cases found <;> rfl

theorem Lexeme.eq_of_sign? {x : Lexeme} {s : Sign} (found : x.sign? = some s) :
    x = .symbol s.char := by
  cases x with
  | number digits => cases found
  | shiftLeft | shiftRight => cases found
  | symbol c =>
    unfold Lexeme.sign? Sign.ofChar? at found
    dsimp only at found
    split at found <;> cases found <;> rfl

/-- What waits on top of the stack can be applied only after a phrase of this rank is complete: it
is no sign, and an operator that binds less tightly. -/
def Looser (rank : Nat) : List Pending → Prop
  | .sign _ :: _ => False
  | .left _ op :: _ => op.level < rank
  | .group :: _ | [] => True

theorem Looser.mono {low high : Nat} {pending : List Pending} (looser : Looser low pending)
    (le : low ≤ high) : Looser high pending := by
  cases pending with
  | nil => trivial
  | cons top rest =>
    cases top with
    | sign => exact looser
    | left _ op => exact Nat.lt_of_lt_of_le (looser : op.level < low) le
    | group => trivial

theorem Looser.applySigns {rank : Nat} {pending : List Pending} (looser : Looser rank pending)
    (n : Int) : applySigns pending n = .ok (pending, n) := by
  cases pending with
  | nil => rfl
  | cons top rest =>
    cases top with
    | sign => exact looser.elim
    | left | group => rfl

theorem Looser.applyOperators {rank : Nat} {pending : List Pending} (looser : Looser rank pending)
    (n : Int) : applyOperators rank pending n = .ok (pending, n) := by
  cases pending with
  | nil => rfl
  | cons top rest =>
    cases top with
    | sign => exact looser.elim
    | left _ op =>
      have below : ¬ rank ≤ op.level := Nat.not_le.mpr looser
      simp only [Expression.applyOperators, if_neg below]
    | group => rfl

/-- What follows does not go on with a phrase of this rank. -/
def Stops (rank : Nat) (rest : List Lexeme) : Prop :=
  ∀ x op, rest.head? = some x → x.operator? = some op → op.level ≤ rank

theorem applyOperators_left (rank : Nat) (pending : List Pending) (a b : Int) (op : Operator)
    (le : rank ≤ op.level) :
    applyOperators rank (.left a op :: pending) b =
      op.apply a b >>= fun n => applyOperators rank pending n := by
  simp only [applyOperators, if_pos le]

/-- An operator whose right operand is complete is carried out before anything that follows. -/
theorem evalOperator_left (pending : List Pending) (a b : Int) (op : Operator) (rest : List Lexeme)
    (stops : Stops op.level rest) :
    evalOperator (.left a op :: pending) b rest =
      op.apply a b >>= fun n => evalOperator pending n rest := by
  cases rest with
  | nil =>
    simp only [evalOperator, applyOperators_left 0 pending a b op (Nat.zero_le _)]
    cases op.apply a b <;> rfl
  | cons x rest =>
    simp only [evalOperator]
    cases following : x.operator? with
    | some other =>
      have le : other.level ≤ op.level := stops x other rfl following
      simp only [applyOperators_left other.level pending a b op le]
      cases op.apply a b <;> rfl
    | none =>
      simp only [applyOperators_left 0 pending a b op (Nat.zero_le _)]
      cases op.apply a b <;> rfl

/-- A phrase of a sign, a number or parentheses is read and the signs before it are applied. -/
def ReadsSigned (ls : List Lexeme) (t : Tree) : Prop :=
  ∀ pending rest, evalOperand pending (ls ++ rest) =
    t.eval >>= fun n => applySigns pending n >>= fun (waiting, n) => evalOperator waiting n rest

/-- A phrase of a level is read where nothing that binds as tightly waits or follows. -/
def Reads (rank : Nat) (ls : List Lexeme) (t : Tree) : Prop :=
  ∀ pending rest, Looser rank pending → Stops rank rest →
    evalOperand pending (ls ++ rest) = t.eval >>= fun n => evalOperator pending n rest

theorem ReadsSigned.reads {ls : List Lexeme} {t : Tree} (reads : ReadsSigned ls t) (rank : Nat) :
    Reads rank ls t := by
  intro pending rest looser _
  rw [reads]
  cases t.eval with
  | error f => rfl
  | ok n =>
    have unsigned := looser.applySigns n
    change applySigns pending n >>= _ = evalOperator pending n rest
    rw [unsigned]
    rfl

theorem readsSigned_number (digits : List Char) :
    ReadsSigned [.number digits] (.number (Text.ofDigits 10 digits)) := by
  intro pending rest
  rfl

theorem readsSigned_signed (s : Sign) (ls : List Lexeme) (t : Tree) (reads : ReadsSigned ls t) :
    ReadsSigned (.symbol s.char :: ls) (.signed s t) := by
  intro pending rest
  have opened : evalOperand pending (.symbol s.char :: ls ++ rest) =
      evalOperand (.sign s :: pending) (ls ++ rest) := by
    cases s <;> rfl
  rw [opened, reads, Tree.eval]
  cases t.eval with
  | error f => rfl
  | ok n =>
    change applySigns (.sign s :: pending) n >>= _ = s.apply n >>= _
    rw [applySigns]
    cases s.apply n <;> rfl

theorem readsSigned_group (ls : List Lexeme) (t : Tree) (reads : Reads 1 ls t) :
    ReadsSigned (.symbol '(' :: (ls ++ [.symbol ')'])) t := by
  intro pending rest
  have opened : evalOperand pending (.symbol '(' :: (ls ++ [.symbol ')']) ++ rest) =
      evalOperand (.group :: pending) (ls ++ .symbol ')' :: rest) := by
    rw [List.cons_append, List.append_assoc]
    rfl
  have stops : Stops 1 (.symbol ')' :: rest) := by
    intro x op first found
    cases first
    cases found
  rw [opened, reads (.group :: pending) (.symbol ')' :: rest) trivial stops]
  cases t.eval <;> rfl

theorem reads_binary (op : Operator) (ls rs : List Lexeme) (l r : Tree)
    (before : Reads op.level ls l) (behind : Reads (op.level + 1) rs r) :
    Reads op.level (ls ++ op.lexeme :: rs) (.binary op l r) := by
  intro pending rest looser stops
  have here : Stops op.level (op.lexeme :: (rs ++ rest)) := by
    intro x other first found
    cases first
    rw [op.operator?_lexeme] at found
    cases found
    exact Nat.le_refl _
  have beyond : Stops (op.level + 1) rest := fun x other first found =>
    Nat.le_succ_of_le (stops x other first found)
  rw [List.append_assoc, List.cons_append, before pending _ looser here, Tree.eval]
  cases l.eval with
  | error f => rfl
  | ok a =>
    have operator : evalOperator pending a (op.lexeme :: (rs ++ rest)) =
        evalOperand (.left a op :: pending) (rs ++ rest) := by
      simp only [evalOperator, op.operator?_lexeme, looser.applyOperators a]
      rfl
    have right := behind (.left a op :: pending) rest (Nat.lt_succ_self _) beyond
    change evalOperator pending a (op.lexeme :: (rs ++ rest)) = (r.eval >>= _) >>= _
    rw [operator, right]
    cases r.eval with
    | error f => rfl
    | ok b => exact evalOperator_left pending a b op rest stops

/-- A phrase contributes the result of its grouping, wherever it stands. -/
theorem Forms.read {level : Level} {ls : List Lexeme} {t : Tree} (forms : Forms level ls t) :
    Reads level.rank ls t ∧ (7 ≤ level.rank → ReadsSigned ls t) := by
  induction forms with
  | next level tighter ls t step _ ih =>
    have rank := Level.rank_next step
    refine ⟨?_, fun tight => ih.2 (by omega)⟩
    intro pending rest looser stops
    exact ih.1 pending rest (looser.mono (by omega)) fun x op first found =>
      Nat.le_trans (stops x op first found) (by omega)
  | binary level tighter op ls rs l r step member _ _ before behind =>
    have rank := Level.rank_operator member
    have next := Level.rank_next step
    rw [next, ← rank] at behind
    rw [← rank] at before ⊢
    have loose := op.home_spec.2.2
    exact ⟨reads_binary op ls rs l r before.1 behind.1, fun tight => by omega⟩
  | signed s ls t _ ih =>
    have reads := readsSigned_signed s ls t (ih.2 (Nat.le_refl 7))
    exact ⟨reads.reads _, fun _ => reads⟩
  | number digits =>
    have reads := readsSigned_number digits
    exact ⟨reads.reads _, fun _ => reads⟩
  | group ls t _ ih =>
    have reads := readsSigned_group ls t ih.1
    exact ⟨reads.reads _, fun _ => reads⟩

/-- An expression has the result of its grouping. -/
theorem Forms.evalOperand_eq {ls : List Lexeme} {t : Tree} (forms : Forms .or ls t) :
    evalOperand [] ls = t.eval := by
  have reads := forms.read.1 [] [] trivial nofun
  rw [List.append_nil] at reads
  rw [reads]
  cases t.eval <;> rfl

/-- The lexemes whose reading leaves this on the stack: the beginning of an expression, with a
complete left operand before each waiting operator. -/
inductive Opened : List Pending → List Lexeme → Prop
  | nil : Opened [] []
  | group (pending : List Pending) (ls : List Lexeme) (outer : Opened pending ls) :
      Opened (.group :: pending) (ls ++ [.symbol '('])
  | sign (s : Sign) (pending : List Pending) (ls : List Lexeme) (outer : Opened pending ls) :
      Opened (.sign s :: pending) (ls ++ [.symbol s.char])
  | left (a : Int) (op : Operator) (pending : List Pending) (ls operand : List Lexeme) (t : Tree)
      (outer : Opened pending ls) (looser : Looser op.level pending)
      (forms : Forms op.home operand t) :
      Opened (.left a op :: pending) (ls ++ (operand ++ [op.lexeme]))

/-- The lexemes up to a place behind an operand: what waits, and then a phrase that is as tight as
`rank` and tighter than the operator that waits. -/
def Ended (rank : Nat) (pending : List Pending) (ls : List Lexeme) : Prop :=
  ∃ before operand level t, Opened pending before ∧ Forms level operand t ∧
    rank ≤ level.rank ∧ Looser level.rank pending ∧ ls = before ++ operand

theorem Opened.signs {pending waiting : List Pending} {before operand : List Lexeme} {t : Tree}
    {level : Level} {n m : Int} (opened : Opened pending before) (forms : Forms level operand t)
    (tight : 7 ≤ level.rank) (applied : applySigns pending n = .ok (waiting, m)) :
    Ended 7 waiting (before ++ operand) := by
  induction opened generalizing operand t level n with
  | nil =>
    cases applied
    exact ⟨[], operand, level, t, .nil, forms, tight, trivial, rfl⟩
  | group pending ls outer _ =>
    cases applied
    exact ⟨_, operand, level, t, .group pending ls outer, forms, tight, trivial, rfl⟩
  | sign s pending ls outer ih =>
    rw [applySigns] at applied
    obtain ⟨signed, _, applied⟩ := bind_eq_ok.mp applied
    have phrase := Forms.signed s operand t (forms.loosen tight)
    have ended := ih phrase (Nat.le_refl 7) applied
    rwa [List.append_assoc]
  | left a op pending ls first u outer looser formed =>
    cases applied
    have binds := op.home_spec.2.2
    refine ⟨_, operand, level, t, .left a op pending ls first u outer looser formed, forms, tight,
      ?_, rfl⟩
    change op.level < level.rank
    omega

theorem Ended.operators {rank : Nat} {pending waiting : List Pending} {ls : List Lexeme}
    {n m : Int} (ended : Ended rank pending ls)
    (applied : applyOperators rank pending n = .ok (waiting, m)) :
    Ended rank waiting ls ∧ Looser rank waiting := by
  obtain ⟨before, operand, level, t, opened, forms, tight, looser, rfl⟩ := ended
  induction opened generalizing operand t level n with
  | nil =>
    cases applied
    exact ⟨⟨[], operand, level, t, .nil, forms, tight, looser, rfl⟩, trivial⟩
  | group pending ls outer _ =>
    cases applied
    exact ⟨⟨_, operand, level, t, .group pending ls outer, forms, tight, looser, rfl⟩, trivial⟩
  | sign s pending ls outer _ => exact looser.elim
  | left a op pending ls first u outer loose formed ih =>
    obtain ⟨member, home, _⟩ := op.home_spec
    have binds : op.level < level.rank := looser
    by_cases le : rank ≤ op.level
    · rw [applyOperators_left rank pending a n op le] at applied
      obtain ⟨result, _, applied⟩ := bind_eq_ok.mp applied
      have bound := level.rank_le
      obtain ⟨tighter, step⟩ := op.home.exists_next (by omega)
      have next := Level.rank_next step
      have right : Forms tighter operand t := forms.loosen (by omega)
      have phrase := Forms.binary op.home tighter op first operand u t step member formed right
      have combined := ih applied _ op.home _ phrase (by omega) (home ▸ loose)
      simpa only [List.append_assoc, List.singleton_append] using combined
    · have stops := applied
      simp only [applyOperators, if_neg le] at stops
      cases stops
      refine ⟨⟨_, operand, level, t, .left a op pending ls first u outer loose formed, forms, tight,
        looser, rfl⟩, ?_⟩
      exact Nat.lt_of_not_le le

theorem Looser.cases_zero {pending : List Pending} (looser : Looser 0 pending) :
    pending = [] ∨ ∃ rest, pending = .group :: rest := by
  cases pending with
  | nil => exact Or.inl rfl
  | cons top rest =>
    cases top with
    | sign => exact looser.elim
    | left _ op => exact absurd looser (Nat.not_lt_zero _)
    | group => exact Or.inr ⟨rest, rfl⟩

theorem Ended.mono {low high : Nat} {pending : List Pending} {ls : List Lexeme}
    (ended : Ended high pending ls) (le : low ≤ high) : Ended low pending ls := by
  obtain ⟨before, operand, level, t, opened, forms, tight, looser, split⟩ := ended
  exact ⟨before, operand, level, t, opened, forms, Nat.le_trans le tight, looser, split⟩

/-- Where nothing waits any more, the lexemes are an expression. -/
theorem Ended.forms {rank : Nat} {ls : List Lexeme} (ended : Ended rank [] ls) :
    ∃ t, Forms .or ls t := by
  obtain ⟨before, operand, level, t, opened, forms, _, _, rfl⟩ := ended
  cases opened
  have loosest : Level.or.rank ≤ level.rank := by
    cases level <;> decide
  exact ⟨t, forms.loosen loosest⟩

/-- The lexemes up to a closing parenthesis are those up to an operand in parentheses. -/
theorem Ended.close {pending waiting : List Pending} {ls : List Lexeme} {n m : Int}
    (ended : Ended 0 (.group :: pending) ls) (applied : applySigns pending n = .ok (waiting, m)) :
    Ended 7 waiting (ls ++ [.symbol ')']) := by
  obtain ⟨before, operand, level, t, opened, forms, _, _, rfl⟩ := ended
  cases opened with
  | group _ outer opened =>
    have loosest : Level.or.rank ≤ level.rank := by
      cases level <;> decide
    have phrase := Forms.group operand t (forms.loosen loosest)
    have closed := opened.signs phrase (by decide) applied
    simpa only [List.append_assoc, List.singleton_append, List.cons_append, List.nil_append]
      using closed

theorem Ended.operator {pending waiting : List Pending} {ls : List Lexeme} {n m : Int}
    (op : Operator) (ended : Ended 7 pending ls)
    (applied : applyOperators op.level pending n = .ok (waiting, m)) :
    Opened (.left m op :: waiting) (ls ++ [op.lexeme]) := by
  obtain ⟨_, home, binds⟩ := op.home_spec
  obtain ⟨reduced, looser⟩ := (ended.mono (Nat.le_of_lt binds)).operators applied
  obtain ⟨before, operand, level, t, opened, forms, tight, _, rfl⟩ := reduced
  rw [List.append_assoc]
  exact .left m op waiting before operand t opened looser (forms.loosen (home ▸ tight))

/-- What has a value is an expression, from a place where an operand must stand and from one where
an operand has just ended. -/
theorem forms_of_value (rest : List Lexeme) (v : Int) :
    (∀ pending ls, Opened pending ls → evalOperand pending rest = .ok v →
      ∃ t, Forms .or (ls ++ rest) t) ∧
    ∀ pending n ls, Ended 7 pending ls → evalOperator pending n rest = .ok v →
      ∃ t, Forms .or (ls ++ rest) t := by
  induction rest with
  | nil =>
    constructor
    · intro pending ls _ value
      cases value
    · intro pending n ls ended value
      rw [evalOperator] at value
      obtain ⟨⟨waiting, m⟩, applied, value⟩ := bind_eq_ok.mp value
      obtain ⟨reduced, looser⟩ := (ended.mono (Nat.zero_le 7)).operators applied
      rcases looser.cases_zero with rfl | ⟨outer, rfl⟩
      · rw [List.append_nil]
        exact reduced.forms
      · cases value
  | cons x rest ih =>
    obtain ⟨operand, operator⟩ := ih
    constructor
    · intro pending ls opened value
      rw [← List.singleton_append, ← List.append_assoc]
      by_cases number : ∃ digits, x = .number digits
      · obtain ⟨digits, rfl⟩ := number
        rw [evalOperand] at value
        obtain ⟨n, _, value⟩ := bind_eq_ok.mp value
        obtain ⟨⟨waiting, m⟩, applied, value⟩ := bind_eq_ok.mp value
        exact operator waiting m _ (opened.signs (.number digits) (by decide) applied) value
      · rw [evalOperand.eq_3 pending x rest fun digits same => number ⟨digits, same⟩] at value
        split at value
        · rename_i group
          subst group
          exact operand _ _ (.group pending ls opened) value
        · split at value
          · rename_i s signed
            obtain rfl := Lexeme.eq_of_sign? signed
            exact operand _ _ (.sign s pending ls opened) value
          · cases value
    · intro pending n ls ended value
      rw [← List.singleton_append, ← List.append_assoc]
      rw [evalOperator] at value
      split at value
      · rename_i op following
        obtain ⟨⟨waiting, m⟩, applied, value⟩ := bind_eq_ok.mp value
        obtain rfl := Lexeme.eq_of_operator? following
        exact operand _ _ (ended.operator op applied) value
      · obtain ⟨⟨waiting, m⟩, applied, value⟩ := bind_eq_ok.mp value
        obtain ⟨reduced, _⟩ := (ended.mono (Nat.zero_le 7)).operators applied
        dsimp only at value
        split at value
        · obtain ⟨⟨outer, k⟩, signs, value⟩ := bind_eq_ok.mp value
          exact operator outer k _ (reduced.close signs) value
        · cases value

theorem evaluate_of_derivable {text : List Char} {t : Tree} (derivable : Derivable text t) :
    evaluate text = t.eval := by
  have forms := (derivable_iff text t).mp derivable
  obtain ⟨blanks, phrase, blank, rfl, derives⟩ := derivable
  have letters : ¬ (blanks ++ phrase).any Text.isAlphabetic = true := by
    rw [List.any_eq_true]
    rintro ⟨c, member, letter⟩
    rcases List.mem_append.mp member with before | inside
    · rw [not_alphabetic_of_blank c (blank c before)] at letter
      cases letter
    · rw [derives.not_alphabetic c inside] at letter
      cases letter
  unfold evaluate
  rw [if_neg letters]
  exact forms.evalOperand_eq

theorem derivable_of_value {text : List Char} {v : Int} (value : evaluate text = .ok v) :
    ∃ t, Derivable text t := by
  unfold evaluate at value
  split at value
  · cases value
  · obtain ⟨t, forms⟩ := (forms_of_value (Lexeme.scan text) v).1 [] [] .nil value
    exact ⟨t, (derivable_iff text t).mpr forms⟩

/-- The evaluator accepts exactly the expressions of the grammar that have a value, and finds it.
For every expression it has the result of the grouping, which is the value or the first fault from
the left, and it rejects every other text. -/
theorem evaluate_follows_grammar (text : List Char) :
    (∀ v, evaluate text = .ok v ↔ ∃ t, Derivable text t ∧ t.Evaluates (.ok v)) ∧
      (∀ t, Derivable text t → ∀ f, evaluate text = .error f ↔ t.Evaluates (.error f)) ∧
      ((∀ t, ¬ Derivable text t) → ∃ f, evaluate text = .error f) := by
  refine ⟨?_, ?_, ?_⟩
  · intro v
    constructor
    · intro value
      obtain ⟨t, derivable⟩ := derivable_of_value value
      rw [evaluate_of_derivable derivable] at value
      exact ⟨t, derivable, (t.evaluates_iff _).mpr value⟩
    · rintro ⟨t, derivable, evaluates⟩
      rw [evaluate_of_derivable derivable]
      exact (t.evaluates_iff _).mp evaluates
  · intro t derivable f
    rw [evaluate_of_derivable derivable]
    exact (t.evaluates_iff _).symm
  · intro underivable
    cases result : evaluate text with
    | error f => exact ⟨f, rfl⟩
    | ok v =>
      obtain ⟨t, derivable⟩ := derivable_of_value result
      exact absurd derivable (underivable t)

/-- Subtraction groups from the left and binds tighter than a shift. -/
example : evaluate "1 << 10 - 3 - 2".toList = .ok 32 := by
  rw [String.toList_ofList]
  decide +kernel

end Accumulator.Expression

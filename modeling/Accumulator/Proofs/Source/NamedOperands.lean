import Accumulator.Proofs.Expression.Formula
import Accumulator.Proofs.Source.Definitions

set_option autoImplicit false

/-!
Constants as operands of expressions. A name in a formula may be replaced by the text of its value, also
by that of a negative one and without parentheses: what stands before and behind an operand never takes
its sign away (`Formula.Derives.substituted`).
-/

namespace Accumulator

open Source Expression

namespace Expression

theorem Blanks.plain {cs : List Char} (blank : Blanks cs) : ∀ c ∈ cs, Text.isWordChar c = false := by
  intro c member
  rw [Bool.eq_false_iff]
  intro word
  have solid := (Text.isWordChar_plain word).1
  rw [blank c member] at solid
  cases solid

theorem tokenChars_plain {c : Char} (member : c ∈ tokenChars) : Text.isWordChar c = false := by
  have all : tokenChars.all (fun c => !Text.isWordChar c) = true := by decide +kernel
  simpa using List.all_eq_true.mp all c member

end Expression

namespace Source.Constants

variable {c : Constants}

/-- What does not begin like a name is no constant. -/
theorem Named.get?_foreign (named : c.Named) {d : Char} (ds : List Char)
    (first : d.isDigit = true ∨ Text.isWordChar d = false) :
    c.get? (String.ofList (d :: ds)) = none := by
  cases found : c.get? (String.ofList (d :: ds)) with
  | none => rfl
  | some value =>
    have identifier := named.identifier found
    rw [Text.not_isIdentifier_of_first first] at identifier
    cases identifier

theorem settled_append {left right : List Char} (apart : Text.Apart right)
    (first : Settled c.get? left) (second : Settled c.get? right) :
    Settled c.get? (left ++ right) := by
  unfold Settled
  rw [Text.runs_append_apart left right apart, List.forall_mem_append]
  exact ⟨first, second⟩

/-- Characters that belong to no word stay, and leave what follows as it is. -/
theorem Named.plain_append (named : c.Named) {plain right : List Char}
    (other : ∀ d ∈ plain, Text.isWordChar d = false) (settled : Settled c.get? right) :
    Text.mapRuns (expandRun c.get?) (plain ++ right) =
        plain ++ Text.mapRuns (expandRun c.get?) right ∧
      Settled c.get? (plain ++ right) := by
  induction plain with
  | nil => exact ⟨rfl, settled⟩
  | cons d plain ih =>
    rw [List.forall_mem_cons] at other
    obtain ⟨mapped, rest⟩ := ih other.2
    have keeps (e : Char) (plain : Text.isWordChar e = false) : expandRun c.get? [e] = [e] :=
      expandRun_of_none (named.get?_foreign [] (Or.inr plain))
    constructor
    · rw [List.cons_append, Text.mapRuns_cons keeps _ other.1, mapped]
      rfl
    · unfold Settled
      rw [List.cons_append, Text.runs_cons _ other.1, List.forall_mem_cons]
      refine ⟨?_, rest⟩
      intro value found
      rw [named.get?_foreign [] (Or.inr other.1)] at found
      cases found

/-- Around characters that belong to no word the constants are put in apart. -/
theorem Named.separated (named : c.Named) {left plain right : List Char}
    (other : ∀ d ∈ plain, Text.isWordChar d = false) (apart : Text.Apart (plain ++ right))
    (first : Settled c.get? left) (second : Settled c.get? right) :
    Text.mapRuns (expandRun c.get?) (left ++ (plain ++ right)) =
        Text.mapRuns (expandRun c.get?) left ++ (plain ++ Text.mapRuns (expandRun c.get?) right) ∧
      Settled c.get? (left ++ (plain ++ right)) := by
  obtain ⟨mapped, settled⟩ := named.plain_append other second
  rw [Text.mapRuns_append_apart _ left _ apart, mapped]
  exact ⟨rfl, settled_append apart first settled⟩

theorem Named.trailing (named : c.Named) {left plain : List Char}
    (other : ∀ d ∈ plain, Text.isWordChar d = false) (first : Settled c.get? left) :
    Text.mapRuns (expandRun c.get?) (left ++ plain) =
        Text.mapRuns (expandRun c.get?) left ++ plain ∧
      Settled c.get? (left ++ plain) := by
  have apart : Text.Apart (plain ++ []) := by
    rw [List.append_nil]
    exact fun d begins => other d (List.mem_of_head? begins)
  have parts := named.separated other apart first nofun
  rwa [Text.mapRuns_nil, List.append_nil] at parts

/-- A text becomes a phrase of an expression when the constants are put in, none of which brings in the
name of another. -/
structure Becomes (c : Constants) (level : Level) (text : List Char) (t : Tree) : Prop where
  derives : Derives level (Text.mapRuns (expandRun c.get?) text) t
  settled : Settled c.get? text

/-- A word that stands for a phrase, with blanks behind it. -/
theorem Named.becomes_word (named : c.Named) {level : Level} {word blanks : List Char} {t : Tree}
    (isWord : Text.IsWord word) (blank : Blanks blanks)
    (closed : ∀ value, c.get? (String.ofList word) = some value →
      ∀ inner ∈ Text.runs value.toList, c.get? (String.ofList inner) = none)
    (derives : Derives level (expandRun c.get? word ++ blanks) t) :
    c.Becomes level (word ++ blanks) t := by
  have settled : Settled c.get? word := by
    intro run member
    rw [Text.runs_of_isWord isWord, List.mem_singleton] at member
    rw [member]
    exact closed
  obtain ⟨mapped, whole⟩ := named.trailing blank.plain settled
  refine ⟨?_, whole⟩
  rwa [mapped, Text.mapRuns_of_isWord _ isWord]

theorem isWord_of_digits {digits : List Char} (some : digits ≠ [])
    (digital : ∀ d ∈ digits, d.isDigit = true) : Text.IsWord digits :=
  ⟨some, fun d member => Text.isWordChar_of_isDigit (digital d member)⟩

theorem Named.get?_digits (named : c.Named) {digits : List Char} (some : digits ≠ [])
    (digital : ∀ d ∈ digits, d.isDigit = true) : c.get? (String.ofList digits) = none := by
  obtain ⟨d, ds, rfl⟩ := List.exists_cons_of_ne_nil some
  exact named.get?_foreign ds (Or.inl (digital d List.mem_cons_self))

/-- The text of an integer brings in no name. -/
theorem Named.get?_toString (named : c.Named) (n : Int) :
    ∀ run ∈ Text.runs (toString n).toList, c.get? (String.ofList run) = none := by
  have number (m : Nat) : c.get? (String.ofList (Nat.toDigits 10 m)) = none :=
    named.get?_digits Nat.toDigits_ne_nil (toDigits_digital m)
  have isWord (m : Nat) : Text.runs (Nat.toDigits 10 m) = [Nat.toDigits 10 m] :=
    Text.runs_of_isWord (isWord_of_digits Nat.toDigits_ne_nil (toDigits_digital m))
  intro run member
  rw [toList_toString] at member
  cases n with
  | ofNat m =>
    rw [isWord, List.mem_singleton] at member
    rw [member, number]
  | negSucc m =>
    rw [Text.runs_cons _ (by decide), isWord, List.mem_cons, List.mem_singleton] at member
    rcases member with rfl | rfl
    · exact named.get?_foreign [] (Or.inr (by decide))
    · exact number (m + 1)

end Source.Constants

namespace Expression

open Source.Constants

/-- The level of what a phrase of a level becomes when a number with a sign may stand for a name. -/
def Level.signed : Level → Level
  | .primary => .unary
  | level => level

theorem Level.signed_next {level tighter : Level} (step : level.next? = some tighter) :
    level.signed.next? = some tighter.signed ∨ level.signed = tighter.signed := by
  cases level <;> cases step <;> decide

theorem Level.signed_of_operator {level tighter : Level} {op : Operator}
    (step : level.next? = some tighter) (member : op ∈ level.operators) :
    level.signed = level ∧ tighter.signed = tighter := by
  cases level <;> cases step <;> first | exact ⟨rfl, rfl⟩ | cases member

/-- Whatever level a name stands at, its value is one operand there: no operator and no sign before it
takes a sign of the value away, and nothing behind it binds more tightly than that sign. -/
theorem Formula.Derives.substituted {c : Constants} (named : c.Named) {value : String → Int}
    {level : Level} {phrase : List Char} {t : Formula} (derives : Formula.Derives level phrase t)
    (maps : ∀ x ∈ t.names, c.get? x = some (toString (value x))) :
    c.Becomes level.signed phrase (t.assign value) := by
  induction derives with
  | next level tighter phrase t step _ ih =>
    obtain ⟨inner, settled⟩ := ih maps
    refine ⟨?_, settled⟩
    rcases Level.signed_next step with next | same
    · exact .next _ _ _ _ next inner
    · rwa [same]
  | binary level tighter op left blanks right l r step member blank _ _ before behind =>
    obtain ⟨first, settledFirst⟩ := before fun x inside => maps x (List.mem_append_left _ inside)
    obtain ⟨second, settledSecond⟩ := behind fun x inside => maps x (List.mem_append_right _ inside)
    obtain ⟨here, next⟩ := Level.signed_of_operator step member
    rw [here] at first ⊢
    rw [next] at second
    have plain : ∀ d ∈ op.text ++ blanks, Text.isWordChar d = false :=
      List.forall_mem_append.mpr
        ⟨fun d inside => tokenChars_plain (op.text_subset d inside), blank.plain⟩
    have apart : Text.Apart (op.text ++ blanks ++ right) := by
      cases op <;> exact fun d begins => by cases begins; decide
    obtain ⟨mapped, settled⟩ := named.separated plain apart settledFirst settledSecond
    rw [← List.append_assoc, ← List.append_assoc] at mapped settled
    refine ⟨?_, settled⟩
    rw [mapped, ← List.append_assoc, ← List.append_assoc]
    exact .binary level tighter op _ blanks _ _ _ step member blank first second
  | signed s blanks operand t blank _ ih =>
    obtain ⟨inner, settled⟩ := ih maps
    have plain : ∀ d ∈ s.char :: blanks, Text.isWordChar d = false :=
      List.forall_mem_cons.mpr ⟨tokenChars_plain s.char_mem, blank.plain⟩
    obtain ⟨mapped, whole⟩ := named.plain_append plain settled
    refine ⟨?_, whole⟩
    rw [mapped]
    exact .signed s blanks _ _ blank inner
  | number digits blanks some digital blank =>
    have missing := named.get?_digits some digital
    refine named.becomes_word (Source.Constants.isWord_of_digits some digital) blank ?_ ?_
    · intro value found
      rw [missing] at found
      cases found
    · rw [expandRun_of_none missing]
      exact .next .unary .primary _ _ rfl (.number digits blanks some digital blank)
  | name x blanks identifier blank =>
    have found : c.get? (String.ofList x.toList) = some (toString (value x)) := by
      rw [String.ofList_toList]
      exact maps x List.mem_cons_self
    refine named.becomes_word (Text.word_of_identifier identifier) blank ?_ ?_
    · intro text same
      rw [found] at same
      cases same
      exact named.get?_toString (value x)
    · rw [expandRun_of_some found]
      exact derives_toString (value x) blanks blank
  | group blanks phrase trailing t blank last _ ih =>
    obtain ⟨inner, settled⟩ := ih maps
    have close : ∀ d ∈ ')' :: trailing, Text.isWordChar d = false :=
      List.forall_mem_cons.mpr ⟨by decide, last.plain⟩
    have opening : ∀ d ∈ '(' :: blanks, Text.isWordChar d = false :=
      List.forall_mem_cons.mpr ⟨by decide, blank.plain⟩
    obtain ⟨ended, inside⟩ := named.trailing close settled
    obtain ⟨mapped, whole⟩ := named.plain_append opening inside
    rw [← List.append_assoc] at mapped whole
    refine ⟨?_, whole⟩
    rw [mapped, ended, ← List.append_assoc]
    exact .next .unary .primary _ _ rfl (.group blanks _ trailing _ blank last inner)

theorem evaluate_substituted {c : Constants} (named : c.Named) {text : String} {t : Formula}
    (derivable : t.Derivable text.toList) {value : String → Int}
    (maps : ∀ x ∈ t.names, c.get? x = some (toString (value x))) :
    evaluate (c.substitute text).toList = (t.assign value).eval := by
  obtain ⟨blanks, phrase, blank, split, derives⟩ := derivable
  obtain ⟨inner, settled⟩ := derives.substituted named maps
  obtain ⟨mapped, whole⟩ := named.plain_append blank.plain settled
  rw [← split] at mapped whole
  rw [substitute_of_settled named text whole, replaceWords, String.toList_ofList, mapped]
  exact evaluate_of_derivable ⟨blanks, _, blank, rfl, inner⟩

/-- A formula in which constants are put in for the names has the result, be it a value or a fault, that
it has with the values as operands, also where values are negative: no parentheses are needed. The
text of an integer has that integer as its value, but for the least one, whose digits overflow. -/
theorem substituted_names_are_values :
    (∀ (c : Constants) (text : String) (t : Formula) (value : String → Int), c.Named →
      t.Derivable text.toList →
      (∀ x ∈ t.names, Writable (value x) ∧ c.get? x = some (toString (value x))) →
      evaluate (c.substitute text).toList = t.eval value) ∧
    ∀ n, FitsWord n →
      (evaluate (toString n).toList = .ok n ↔ n ≠ -0x8000000000000000) ∧
        (n = -0x8000000000000000 → evaluate (toString n).toList = .error .overflow) := by
  constructor
  · intro c text t value named derivable maps
    rw [evaluate_substituted named derivable fun x member => (maps x member).2]
    exact t.eval_assign value fun x member => (maps x member).1
  · intro n fits
    rw [evaluate_toString]
    have least (same : n = -0x8000000000000000) : (Tree.ofInt n).eval = .error .overflow := by
      rw [same, Tree.eval_ofInt_least]
    refine ⟨⟨?_, fun other => Tree.eval_ofInt ⟨fits, other⟩⟩, least⟩
    rintro value same
    rw [least same] at value
    cases value

/-- The sign of a negative value stays with it behind an operator. -/
theorem negativeOperand_value :
    evaluate ((ofDefinitions [("W", "4"), ("N", "-3")]).substitute "7-N << W").toList = .ok 160 := by
  have seven : Formula.Derives .sum ['7'] (.number 7) :=
    .next .sum .product _ _ rfl <| .next .product .unary _ _ rfl <| .next .unary .primary _ _ rfl <|
      .number ['7'] [] (List.cons_ne_nil _ _) (List.forall_mem_singleton.mpr rfl) nofun
  have n : Formula.Derives .product ("N".toList ++ [' ']) (.name "N") :=
    .next .product .unary _ _ rfl <| .next .unary .primary _ _ rfl <|
      .name "N" [' '] (by decide +kernel) blanks_space
  have w : Formula.Derives .sum ("W".toList ++ []) (.name "W") :=
    .next .sum .product _ _ rfl <| .next .product .unary _ _ rfl <| .next .unary .primary _ _ rfl <|
      .name "W" [] (by decide +kernel) nofun
  have difference := Formula.Derives.binary .sum .product .sub _ [] _ _ _ rfl (by decide) nofun seven n
  have shifted := Formula.Derives.binary .shift .sum .shiftLeft _ [' '] _ _ _ rfl (by decide)
    blanks_space (.next .shift .sum _ _ rfl difference) w
  have derivable : Formula.Derivable "7-N << W".toList
      (.binary .shiftLeft (.binary .sub (.number 7) (.name "N")) (.name "W")) :=
    ⟨[], _, nofun, by decide +kernel, .next .or .xor _ _ rfl <| .next .xor .and _ _ rfl <|
      .next .and .shift _ _ rfl shifted⟩
  have named : (ofDefinitions [("W", "4"), ("N", "-3")]).Named :=
    named_ofDefinitions _ (by decide +kernel)
  rw [substituted_names_are_values.1 _ _ _ (fun x => if x = "W" then 4 else -3) named derivable
    (by decide +kernel)]
  decide +kernel

end Expression

end Accumulator

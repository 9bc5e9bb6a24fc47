import Accumulator.Proofs.Expression.Joining
import Accumulator.Source.Expansion

set_option autoImplicit false

/-!
Directives that define a constant by an expression of several fields. The fields are joined without
blanks, so that the value is the one of the expression as it is written, unless numbers or shifts on
both sides of a blank become one (`directive_joins_fields`).
-/

namespace Accumulator

open Source Expression

namespace Source

/-- A directive that defines a name by an expression. `front` is what follows the marker in its first
field, after substitution. -/
structure Token.Expresses (c : Constants) (t : Token) (name : String) (field : String)
    (fields : List String) (front : List Char) : Prop where
  define : t.mnemonic = "#define"
  args : t.args = name :: field :: fields
  identifier : Text.isIdentifier name = true
  marked : afterMarker? (c.substitute field).toList = some front

/-- The substituted fields of an expression, the first without the marker. -/
def Constants.pieces (c : Constants) (front : List Char) (fields : List String) : List (List Char) :=
  front :: fields.map fun field => (c.substitute field).toList

/-- A directive gives a name the decimal text of the value that an expression has, and is an invalid
literal if the expression has none. -/
def Constants.Defines (c : Constants) (t : Token) (name : String) (expression : List Char) : Prop :=
  (∀ defined, c.definition t = .ok defined ↔
      ∃ n, evaluate expression = .ok n ∧ defined = (name, toString n)) ∧
    ((∀ n, evaluate expression ≠ .ok n) →
      ∃ text, c.definition t = .error (t.fault (.invalidLiteral text)))

theorem afterMarker?_append {text front : List Char} (rest : List Char)
    (marked : afterMarker? text = some front) :
    afterMarker? (text ++ rest) = some (front ++ rest) := by
  unfold afterMarker? at marked
  split at marked
  · cases marked
    rfl
  · cases marked

/-- The fields of an expression are evaluated as one text. -/
theorem definedValue_of_marked {first : String} {front : List Char} (rest : List String)
    (marked : afterMarker? first.toList = some front) :
    definedValue (first :: rest) = evalMarked (String.join (first :: rest)) ∧
      afterMarker? (String.join (first :: rest)).toList =
        some (front :: rest.map String.toList).flatten := by
  constructor
  · cases rest with
    | nil =>
      have single : String.join [first] = first := by
        rw [← String.toList_inj, String.toList_join, List.flatMap_singleton]
      rw [single]
      rfl
    | cons second rest => exact if_pos (congrArg Option.isSome marked)
  · rw [String.toList_join, List.flatMap_cons, List.flatten_cons, ← List.flatMap_def]
    exact afterMarker?_append _ marked

section

variable {c : Constants} {t : Token} {name field : String} {fields : List String}
  {front : List Char}

theorem Token.Expresses.definedValue_eq (expresses : t.Expresses c name field fields front) :
    definedValue ((field :: fields).map c.substitute) =
        evalMarked (String.join ((field :: fields).map c.substitute)) ∧
      afterMarker? (String.join ((field :: fields).map c.substitute)).toList =
        some (c.pieces front fields).flatten := by
  have value := definedValue_of_marked (fields.map c.substitute) expresses.marked
  rw [List.map_map] at value
  exact value

theorem Token.Expresses.definition_of_ok (expresses : t.Expresses c name field fields front) {n : Int}
    (value : evaluate (c.pieces front fields).flatten = .ok n) :
    c.definition t = .ok (name, toString n) := by
  obtain ⟨defined, joined⟩ := expresses.definedValue_eq
  have evaluated : evalMarked (String.join ((field :: fields).map c.substitute)) =
      .ok (toString n) := by
    simp only [evalMarked, joined, value]
  unfold Constants.definition
  simp only [expresses.define, expresses.args, expresses.identifier, defined, evaluated, ↓reduceIte]

theorem Token.Expresses.definition_of_error (expresses : t.Expresses c name field fields front)
    {f : Expression.Fault} (failed : evaluate (c.pieces front fields).flatten = .error f) :
    c.definition t = .error
      (t.fault (.invalidLiteral (String.join ((field :: fields).map c.substitute)))) := by
  obtain ⟨defined, joined⟩ := expresses.definedValue_eq
  have evaluated : evalMarked (String.join ((field :: fields).map c.substitute)) =
      .error (.invalidLiteral (String.join ((field :: fields).map c.substitute))) := by
    simp only [evalMarked, joined, failed]
  unfold Constants.definition
  simp only [expresses.define, expresses.args, expresses.identifier, defined, evaluated, ↓reduceIte]

theorem Token.Expresses.defines_joined (expresses : t.Expresses c name field fields front) :
    c.Defines t name (c.pieces front fields).flatten := by
  unfold Constants.Defines
  cases value : evaluate (c.pieces front fields).flatten with
  | ok n =>
    rw [expresses.definition_of_ok value]
    refine ⟨?_, fun none => absurd rfl (none n)⟩
    intro defined
    constructor
    · intro same
      exact ⟨n, rfl, (Except.ok.inj same).symm⟩
    · rintro ⟨m, same, rfl⟩
      rw [Except.ok.inj same]
  | error f =>
    rw [expresses.definition_of_error value]
    refine ⟨fun defined => ⟨nofun, ?_⟩, fun _ => ⟨_, rfl⟩⟩
    rintro ⟨_, same, _⟩
    cases same

/-- A directive evaluates its fields as they are joined without blanks. That is the value of the
expression as it is written whenever this has one; and the directive means the expression as written
exactly if no digits and no angle brackets meet at a border of two fields, or the joined fields have
no value either. -/
theorem directive_joins_fields (c : Constants) (t : Token) (name field : String)
    (fields : List String) (front : List Char)
    (expresses : t.Expresses c name field fields front) :
    c.Defines t name (c.pieces front fields).flatten ∧
      (∀ n, evaluate ([' '].intercalate (c.pieces front fields)) = .ok n →
        c.definition t = .ok (name, toString n)) ∧
      (c.Defines t name ([' '].intercalate (c.pieces front fields)) ↔
        Seamless (c.pieces front fields) ∨ ∀ n, evaluate (c.pieces front fields).flatten ≠ .ok n) := by
  have joined := expresses.defines_joined
  generalize c.pieces front fields = pieces at joined ⊢
  have written (n : Int) (value : evaluate ([' '].intercalate pieces) = .ok n) :
      evaluate pieces.flatten = .ok n := by
    rw [← evaluate_spaced (seamless_of_value value), value]
  refine ⟨joined, ?_, ?_⟩
  · intro n value
    exact (joined.1 _).mpr ⟨n, written n value, rfl⟩
  · constructor
    · intro defines
      rw [Classical.or_iff_not_imp_right]
      intro some
      obtain ⟨n, value⟩ := Classical.not_forall_not.mp some
      obtain ⟨m, spaced, _⟩ := (defines.1 _).mp ((joined.1 _).mpr ⟨n, value, rfl⟩)
      exact seamless_of_value spaced
    · rintro (seamless | none)
      · unfold Constants.Defines
        rw [evaluate_spaced seamless]
        exact joined
      · have blank (n : Int) : evaluate ([' '].intercalate pieces) ≠ .ok n :=
          fun value => none n (written n value)
        refine ⟨fun defined => ?_, fun _ => joined.2 none⟩
        rw [joined.1]
        exact ⟨fun ⟨n, value, _⟩ => absurd value (none n), fun ⟨n, value, _⟩ => absurd value (blank n)⟩

/-- `#define A EVAL 1 < < W`, with two angle brackets that are no shift as they are written. -/
def splitShift : Token :=
  ⟨.directive, "#define", ["A", "EVAL", "1", "<", "<", "W"], ⟨2, "#define A EVAL 1 < < W"⟩⟩

/-- The brackets become a shift, and the directive does not mean the expression as written. -/
theorem splitShift_joined :
    (Constants.empty.define "W" "3").definition splitShift = .ok ("A", "8") ∧
      ¬ (Constants.empty.define "W" "3").Defines splitShift "A" " 1 < < 3".toList := by
  have expresses : splitShift.Expresses (Constants.empty.define "W" "3") "A" "EVAL"
      ["1", "<", "<", "W"] [] := ⟨rfl, rfl, by decide +kernel, by decide +kernel⟩
  have value : evaluate ((Constants.empty.define "W" "3").pieces [] ["1", "<", "<", "W"]).flatten =
      .ok 8 := by decide +kernel
  have rejected : (evaluate " 1 < < 3".toList).toOption = none := by decide +kernel
  have spaced : [' '].intercalate ((Constants.empty.define "W" "3").pieces [] ["1", "<", "<", "W"]) =
      " 1 < < 3".toList := by decide +kernel
  obtain ⟨joined, _, written⟩ := directive_joins_fields _ splitShift "A" "EVAL" _ [] expresses
  refine ⟨(joined.1 _).mpr ⟨8, value, by decide +kernel⟩, ?_⟩
  rw [← spaced, written]
  rintro (seamless | none)
  · rw [← evaluate_spaced seamless, spaced] at value
    rw [value] at rejected
    cases rejected
  · exact none 8 value

/-- A blank between two fields may be lost: `#define A EVAL 1 2` defines `A` as twelve, while the text
behind the marker is no expression. -/
theorem directive_may_join_numbers :
    ¬ ∀ (c : Constants) (t : Token) (name field : String) (fields : List String) (front : List Char),
      t.Expresses c name field fields front →
        c.Defines t name ([' '].intercalate (c.pieces front fields)) := by
  intro meant
  have defines := meant .empty ⟨.directive, "#define", ["A", "EVAL", "1", "2"],
    ⟨1, "#define A EVAL 1 2"⟩⟩ "A" "EVAL" ["1", "2"] []
    ⟨rfl, rfl, by decide +kernel, by decide +kernel⟩
  obtain ⟨n, value, _⟩ := (defines.1 ("A", "12")).mp (by decide +kernel)
  have rejected : (evaluate ([' '].intercalate (Constants.empty.pieces [] ["1", "2"]))).toOption =
      none := by decide +kernel
  rw [value] at rejected
  cases rejected

end

end Source

end Accumulator

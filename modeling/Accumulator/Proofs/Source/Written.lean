import Accumulator.Proofs.Source.Expansion
import Accumulator.Proofs.Source.Moved

set_option autoImplicit false

/-!
Lines written with words. A line of words has them for its fields, so a constant is defined by the line
that says so; and where it is the only one, it is put in for the arguments that are its name.
-/

namespace Accumulator

open Source

theorem stripComment_plain (cs : List Char) (plain : ∀ c ∈ cs, c ≠ ';' ∧ c ≠ '/') :
    stripComment cs = cs := by
  induction cs with
  | nil => rfl
  | cons c cs ih =>
    rw [List.forall_mem_cons] at plain
    rw [stripComment, ih plain.2]
    · exact plain.1.1
    · exact fun _ slash => absurd slash plain.1.2

/-- Nothing in a word ends a line or begins a comment. -/
theorem word_plain {cs : List Char} (word : ∀ c ∈ cs, Text.isWordChar c = true) :
    ∀ c ∈ cs, (c ≠ '\n' ∧ c ≠ '\r') ∧ c ≠ ';' ∧ c ≠ '/' := by
  intro c member
  obtain ⟨unblank, unmarked⟩ := Text.isWordChar_plain (word c member)
  refine ⟨⟨?_, ?_⟩, unmarked⟩
  · rintro rfl
    cases unblank
  · rintro rfl
    cases unblank

theorem word_unblank {cs : List Char} (word : ∀ c ∈ cs, Text.isWordChar c = true) :
    ∀ c ∈ cs, Text.isBlank c = false :=
  fun c member => (Text.isWordChar_plain (word c member)).1

section Definition

/-- The line that defines a constant. -/
def defineLine (name value : String) : List Char :=
  "#define".toList ++ ' ' :: (name.toList ++ ' ' :: value.toList)

/-- The token of the line, which is the first of its text. -/
def defineToken (name value : String) : Token :=
  ⟨.directive, "#define", [name, value], ⟨1, String.ofList (Text.trim (defineLine name value))⟩⟩

variable {name value : String}

theorem define_isWord : ∀ c ∈ "define".toList, Text.isWordChar c = true :=
  List.all_eq_true.mp (by decide)

theorem scan_defineLine (named : Text.IsWord name.toList) (word : Text.IsWord value.toList) :
    Token.scan (defineLine name value) = .ok [defineToken name value] := by
  have first : "#define".toList = '#' :: "define".toList := rfl
  have plain : ∀ c ∈ defineLine name value, (c ≠ '\n' ∧ c ≠ '\r') ∧ c ≠ ';' ∧ c ≠ '/' := by
    unfold defineLine
    rw [first, List.forall_mem_append, List.forall_mem_cons, List.forall_mem_cons,
      List.forall_mem_append, List.forall_mem_cons]
    exact ⟨⟨by decide, word_plain define_isWord⟩, by decide, word_plain named.2, by decide,
      word_plain word.2⟩
  have unblank : ∀ c ∈ "#define".toList, Text.isBlank c = false := by
    rw [first, List.forall_mem_cons]
    exact ⟨by decide, word_unblank define_isWord⟩
  have lines : Text.lines (defineLine name value) = [defineLine name value] :=
    Text.lines_last _ (List.cons_ne_nil _ _) fun c member => (plain c member).1
  have fields : Text.fields (defineLine name value) =
      ["#define".toList, name.toList, value.toList] := by
    unfold defineLine
    rw [Text.fields_word _ (by decide) unblank,
      Text.fields_word _ named.1 (word_unblank named.2), Text.fields_last word.1 (word_unblank word.2)]
  have content : Content.ofLine? 1 (defineLine name value) =
      some ⟨(defineToken name value).origin, "#define", [name, value]⟩ := by
    unfold Content.ofLine?
    rw [stripComment_plain _ fun c member => (plain c member).2, fields]
    simp only [List.map_cons, List.map_nil, String.ofList_toList]
    rfl
  have kind : Kind.ofFields? "#define" [name, value] = some .directive := if_pos (by decide)
  have token : Content.token ⟨(defineToken name value).origin, "#define", [name, value]⟩ =
      .ok (defineToken name value) := by
    unfold Content.token
    rw [kind]
    rfl
  unfold Token.scan
  rw [Token.ofLines_eq, lines, Content.ofLines_cons, content]
  change [_].mapM Content.token = _
  rw [mapM_eq_ok]
  exact .cons token .nil

/-- A token with a value in the place of each argument that is a name. -/
def Source.Token.put (name value : String) (t : Token) : Token :=
  { t with args := t.args.map fun argument => if argument = name then value else argument }

/-- An argument that is one word, and no expression. -/
def PlainArgument (text : String) : Prop :=
  text.toList ≠ [] ∧ text.toList.all Text.isWordChar = true ∧ afterMarker? text.toList = none

instance (text : String) : Decidable (PlainArgument text) :=
  inferInstanceAs (Decidable (_ ∧ _ ∧ _))

theorem expand_defined {tokens : List Token} (unmarked : afterMarker? value.toList = none)
    (statements : ∀ t ∈ tokens, t.kind ≠ .directive)
    (plain : ∀ t ∈ tokens, ∀ text ∈ t.args, PlainArgument text) :
    (⟨[(name, value)]⟩ : Constants).expand tokens = .ok (tokens.map (Token.put name value)) := by
  have argument (text : String) (plain : PlainArgument text) :
      evalMarked ((⟨[(name, value)]⟩ : Constants).substitute text) =
        .ok (if text = name then value else text) := by
    by_cases same : text = name
    · have found : (⟨[(name, value)]⟩ : Constants).get? text = some value := by
        rw [same]
        exact List.lookup_cons_self
      unfold Constants.substitute evalMarked
      rw [found, if_pos same]
      dsimp only
      rw [unmarked]
    · have missing : (⟨[(name, value)]⟩ : Constants).get? text = none :=
        Constants.lookup_behind same
      obtain ⟨filled, inside, other⟩ := plain
      rw [if_neg same, Constants.substitute_word _ filled (List.all_eq_true.mp inside) missing]
      unfold evalMarked
      rw [other]
  induction tokens with
  | nil => rfl
  | cons t tokens ih =>
    rw [List.forall_mem_cons] at statements plain
    have args : (t.args.mapM fun text =>
        evalMarked ((⟨[(name, value)]⟩ : Constants).substitute text)) =
          .ok (t.put name value).args := by
      rw [mapM_eq_ok]
      exact List.forall₂_map_right_iff.mpr
        (List.forall₂_same.mpr fun text member => argument text (plain.1 text member))
    have here : (⟨[(name, value)]⟩ : Constants).expandToken t = .ok (t.put name value) := by
      unfold Constants.expandToken
      rw [args]
      rfl
    rw [Constants.expand_statement statements.1 here, ih statements.2 plain.2]
    rfl

/-- Behind the definition of a constant, its value is put in for its name. -/
theorem definition_defineToken (identifier : Text.isIdentifier name = true)
    (unmarked : afterMarker? value.toList = none) :
    Constants.empty.definition (defineToken name value) = .ok (name, value) := by
  have kept : Constants.empty.substitute value = value := String.ofList_toList
  have joined : String.join [value] = value := by
    rw [← String.toList_inj, String.toList_join, List.flatMap_singleton]
  rw [Constants.definition_eq_ok]
  refine ⟨rfl, identifier, value, [], rfl, .inl rfl, ?_⟩
  rw [List.map_singleton, kept, joined]
  exact .plain (afterMarker?_eq_none_iff.mp unmarked)

end Definition

end Accumulator

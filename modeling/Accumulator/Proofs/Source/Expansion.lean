import Accumulator.Proofs.Expression.Formula
import Accumulator.Proofs.Source.Definitions
import Accumulator.Proofs.Source.Directive

set_option autoImplicit false

/-!
Expansion from the top of a source to its end, told place by place: every directive defines a name, and
every other token is kept with its arguments settled, each under what the directives above it define
(`Expansion`). Tokens below others change nothing of what these expand to, and what is expanded has
nothing left to expand (`expansion_goes_down`).
-/

namespace Accumulator

open Source

namespace Source

section Settling

/-- The marker of an expression. -/
def marker : List Char := ['E', 'V', 'A', 'L']

theorem afterMarker?_eq_some_iff {text rest : List Char} :
    afterMarker? text = some rest ↔ text = marker ++ rest := by
  unfold afterMarker?
  constructor
  · intro marked
    split at marked
    · cases marked
      rfl
    · cases marked
  · rintro rfl
    rfl

theorem afterMarker?_eq_none_iff {text : List Char} :
    afterMarker? text = none ↔ ¬ marker <+: text := by
  rw [Option.eq_none_iff_forall_ne_some]
  constructor
  · rintro unmarked ⟨rest, rfl⟩
    exact unmarked rest rfl
  · intro unmarked rest marked
    exact unmarked ⟨rest, (afterMarker?_eq_some_iff.mp marked).symm⟩

theorem afterMarker?_isSome_iff {text : List Char} :
    (afterMarker? text).isSome = true ↔ marker <+: text := by
  rw [← Classical.not_not (a := marker <+: text), ← afterMarker?_eq_none_iff, ← ne_eq,
    Option.ne_none_iff_isSome]

/-- What a substituted text stands for: the decimal text of the value of the expression behind the
marker, and without a marker the text itself. -/
inductive Settles (text : String) : String → Prop
  | plain (unmarked : ¬ marker <+: text.toList) : Settles text text
  | value (expression : List Char) (n : Int) (marked : text.toList = marker ++ expression)
      (evaluates : Expression.evaluate expression = .ok n) : Settles text (toString n)

theorem settles_iff {text value : String} : Settles text value ↔ evalMarked text = .ok value := by
  unfold evalMarked
  constructor
  · intro settles
    cases settles with
    | plain unmarked => rw [afterMarker?_eq_none_iff.mpr unmarked]
    | value expression n marked evaluates =>
      rw [afterMarker?_eq_some_iff.mpr marked]
      dsimp only
      rw [evaluates]
  · intro settled
    split at settled
    · rename_i unmarked
      cases settled
      exact .plain (afterMarker?_eq_none_iff.mp unmarked)
    · rename_i expression marked
      split at settled
      · rename_i n evaluates
        cases settled
        exact .value expression n (afterMarker?_eq_some_iff.mp marked) evaluates
      · cases settled

/-- The text of a number does not begin like the marker. -/
theorem unmarked_toString (n : Int) : ¬ marker <+: (toString n).toList := by
  rintro ⟨rest, spelled⟩
  rw [Expression.toList_toString] at spelled
  cases n with
  | ofNat m =>
    change marker ++ rest = Nat.toDigits 10 m at spelled
    have first : 'E' ∈ Nat.toDigits 10 m := spelled ▸ List.mem_cons_self
    exact absurd (Expression.toDigits_digital m 'E' first) (by decide)
  | negSucc m =>
    have first : 'E' = '-' := (List.cons.inj spelled).1
    exact absurd first (by decide)

theorem Settles.unmarked {text value : String} (settles : Settles text value) :
    ¬ marker <+: value.toList := by
  cases settles with
  | plain unmarked => exact unmarked
  | value _ n _ _ => exact unmarked_toString n

end Settling

section Tokens

def Token.isDirective (t : Token) : Bool := t.kind == .directive

theorem Token.isDirective_iff {t : Token} : t.isDirective = true ↔ t.kind = .directive :=
  beq_iff_eq

/-- The directives among tokens. -/
def directives (tokens : List Token) : List Token := tokens.filter Token.isDirective

/-- The tokens that are no directives. -/
def statements (tokens : List Token) : List Token := tokens.filter fun t => !t.isDirective

/-- A directive defines a name under the constants known so far. Its value is what the substituted fields
stand for, of which there is one unless an expression is spread over several. -/
structure Token.Introduces (c : Constants) (d : Token) (entry : String × String) : Prop where
  define : d.mnemonic = "#define"
  identifier : Text.isIdentifier entry.1 = true
  fields : ∃ first rest, d.args = entry.1 :: first :: rest ∧
    (rest = [] ∨ marker <+: (c.substitute first).toList) ∧
    Settles (String.join ((first :: rest).map c.substitute)) entry.2

theorem definedValue_eq_ok {first value : String} {rest : List String} :
    definedValue (first :: rest) = .ok value ↔
      (rest = [] ∨ marker <+: first.toList) ∧ Settles (String.join (first :: rest)) value := by
  rw [settles_iff]
  cases rest with
  | nil =>
    have single : String.join [first] = first := by
      rw [← String.toList_inj, String.toList_join, List.flatMap_singleton]
    rw [single]
    exact ⟨fun defined => ⟨.inl rfl, defined⟩, fun defined => defined.2⟩
  | cons second rest =>
    unfold definedValue
    dsimp only
    by_cases marked : marker <+: first.toList
    · rw [if_pos (afterMarker?_isSome_iff.mpr marked)]
      exact ⟨fun defined => ⟨.inr marked, defined⟩, fun defined => defined.2⟩
    · rw [if_neg (afterMarker?_isSome_iff.not.mpr marked)]
      constructor
      · intro failed
        cases failed
      · rintro ⟨single | also, _⟩
        · cases single
        · exact absurd also marked

theorem Constants.definition_eq_ok {c : Constants} {d : Token} {entry : String × String} :
    c.definition d = .ok entry ↔ d.Introduces c entry := by
  unfold Constants.definition
  constructor
  · intro defined
    split at defined
    · rename_i define
      split at defined
      · rename_i name field fields args
        split at defined
        · rename_i identifier
          split at defined
          · rename_i value found
            cases defined
            refine ⟨define, identifier, field, fields, args, ?_⟩
            rw [List.map_cons, definedValue_eq_ok] at found
            exact ⟨found.1.imp_left List.map_eq_nil_iff.mp, found.2⟩
          · cases defined
        · cases defined
      · cases defined
    · cases defined
  · rintro ⟨define, identifier, field, fields, args, several, settles⟩
    have found : definedValue ((field :: fields).map c.substitute) = .ok entry.2 :=
      definedValue_eq_ok.mpr ⟨several.imp_left List.map_eq_nil_iff.mpr, settles⟩
    rw [if_pos define, args]
    dsimp only
    rw [if_pos identifier, found]

theorem Constants.expandToken_eq_ok {c : Constants} {t token : Token} :
    c.expandToken t = .ok token ↔ ∃ args, token = { t with args } ∧
      List.Forall₂ (fun argument text => Settles (c.substitute argument) text) t.args args := by
  simp only [settles_iff]
  unfold Constants.expandToken
  constructor
  · intro expands
    split at expands
    · rename_i args settled
      cases expands
      exact ⟨args, rfl, mapM_eq_ok.mp settled⟩
    · cases expands
  · rintro ⟨args, rfl, settled⟩
    rw [mapM_eq_ok.mpr settled]

end Tokens

/-- The constants above the token with an index, where the directives define these names and values. -/
def Constants.above (defined : List (String × String)) (tokens : List Token) (i : Nat) : Constants :=
  ofDefinitions (defined.take (directives (tokens.take i)).length)

/-- Tokens are expanded under definitions that their directives make: one for each directive, under
those above it, and one token for each of the others, which keeps its kind, mnemonic and origin and has
as many arguments, each settled under the definitions above it. -/
structure Expansion (tokens : List Token) (defined : List (String × String))
    (expanded : List Token) : Prop where
  defined_length : defined.length = (directives tokens).length
  expanded_length : expanded.length = (statements tokens).length
  directive : ∀ i d, tokens[i]? = some d → d.kind = .directive →
    ∃ entry, defined[(directives (tokens.take i)).length]? = some entry ∧
      d.Introduces (.above defined tokens i) entry
  statement : ∀ i t, tokens[i]? = some t → t.kind ≠ .directive →
    ∃ args, expanded[(statements (tokens.take i)).length]? = some { t with args } ∧
      List.Forall₂ (fun argument text =>
        Settles ((Constants.above defined tokens i).substitute argument) text) t.args args

namespace Constants

theorem behind_empty (tokens : List Token) :
    empty.behind tokens = ofDefinitions (empty.definitions tokens) := rfl

theorem expand_directive {c : Constants} {d : Token} {entry : String × String}
    (directive : d.kind = .directive) (defines : c.definition d = .ok entry) (rest : List Token) :
    c.expand (d :: rest) = (c.define entry.1 entry.2).expand rest := by
  rw [expand, if_pos directive, defines]
  rfl

theorem expand_statement {c : Constants} {t token : Token} (other : t.kind ≠ .directive)
    (expands : c.expandToken t = .ok token) (rest : List Token) :
    c.expand (t :: rest) = (c.expand rest).map (token :: ·) := by
  rw [expand, if_neg other, expands]
  rfl

theorem definitions_directive {c : Constants} {d : Token} {entry : String × String}
    (directive : d.kind = .directive) (defines : c.definition d = .ok entry) (rest : List Token) :
    c.definitions (d :: rest) = entry :: (c.define entry.1 entry.2).definitions rest := by
  rw [definitions, if_pos directive, defines]

theorem definitions_statement {c : Constants} {t token : Token} (other : t.kind ≠ .directive)
    (expands : c.expandToken t = .ok token) (rest : List Token) :
    c.definitions (t :: rest) = c.definitions rest := by
  rw [definitions, if_neg other, expands]

/-- What an expansion does first: it defines a name, or keeps a token. -/
theorem expand_cons_cases {c : Constants} {t : Token} {rest expanded : List Token}
    (expands : c.expand (t :: rest) = .ok expanded) :
    (t.kind = .directive ∧ ∃ entry, c.definition t = .ok entry ∧
      (c.define entry.1 entry.2).expand rest = .ok expanded) ∨
    (t.kind ≠ .directive ∧ ∃ token others, c.expandToken t = .ok token ∧
      c.expand rest = .ok others ∧ expanded = token :: others) := by
  by_cases directive : t.kind = .directive
  · rw [expand, if_pos directive] at expands
    obtain ⟨entry, defines, later⟩ := bind_eq_ok.mp expands
    exact .inl ⟨directive, entry, defines, later⟩
  · rw [expand, if_neg directive] at expands
    simp only [bind_eq_ok, pure_eq_ok] at expands
    obtain ⟨token, here, others, later, same⟩ := expands
    exact .inr ⟨directive, token, others, here, later, same.symm⟩

/-- Each directive defines one name, and each other token is kept. -/
theorem expand_lengths (tokens : List Token) (c : Constants) (expanded : List Token)
    (expands : c.expand tokens = .ok expanded) :
    (c.definitions tokens).length = (directives tokens).length ∧
      expanded.length = (statements tokens).length := by
  induction tokens generalizing c expanded with
  | nil =>
    cases expands
    exact ⟨rfl, rfl⟩
  | cons t rest ih =>
    unfold directives statements at ih ⊢
    rcases expand_cons_cases expands with
      ⟨directive, entry, defines, later⟩ | ⟨other, token, others, here, later, rfl⟩
    · have counts := ih _ expanded later
      have isDirective := Token.isDirective_iff.mpr directive
      rw [definitions_directive directive defines]
      simpa [isDirective] using counts
    · have counts := ih c others later
      have isDirective : t.isDirective = false :=
        Bool.eq_false_iff.mpr fun yes => other (Token.isDirective_iff.mp yes)
      rw [definitions_statement other here]
      simpa [isDirective] using counts

theorem definitions_append (before after : List Token) (c : Constants) (first : List Token)
    (expands : c.expand before = .ok first) :
    c.definitions (before ++ after) = c.definitions before ++ (c.behind before).definitions after := by
  induction before generalizing c first with
  | nil => rfl
  | cons t rest ih =>
    rw [List.cons_append]
    rcases expand_cons_cases expands with
      ⟨directive, entry, defines, later⟩ | ⟨other, token, others, here, later, rfl⟩
    · rw [definitions_directive directive defines, definitions_directive directive defines,
        behind_directive directive defines, ih _ first later, List.cons_append]
    · rw [definitions_statement other here, definitions_statement other here,
        behind_token other here, ih c others later]

/-- Expanded tokens are no directives, and none of their arguments begins with the marker. -/
theorem expand_settled (tokens : List Token) (c : Constants) (expanded : List Token)
    (expands : c.expand tokens = .ok expanded) :
    ∀ t ∈ expanded, t.kind ≠ .directive ∧ ∀ argument ∈ t.args, ¬ marker <+: argument.toList := by
  induction tokens generalizing c expanded with
  | nil =>
    cases expands
    exact nofun
  | cons t rest ih =>
    rcases expand_cons_cases expands with
      ⟨_, entry, _, later⟩ | ⟨other, token, others, here, later, rfl⟩
    · exact ih _ expanded later
    · obtain ⟨args, rfl, settled⟩ := expandToken_eq_ok.mp here
      rw [List.forall_mem_cons]
      refine ⟨⟨other, ?_⟩, ih c others later⟩
      intro argument member
      obtain ⟨source, _, settles⟩ := forall₂_exists_of_mem settled.flip argument member
      exact settles.unmarked

theorem substitute_empty (argument : String) : empty.substitute argument = argument :=
  String.ofList_toList

/-- Without constants, tokens that have nothing to expand are kept. -/
theorem expand_of_settled (tokens : List Token)
    (settled : ∀ t ∈ tokens, t.kind ≠ .directive ∧
      ∀ argument ∈ t.args, ¬ marker <+: argument.toList) :
    empty.expand tokens = .ok tokens := by
  induction tokens with
  | nil => rfl
  | cons t rest ih =>
    rw [List.forall_mem_cons] at settled
    obtain ⟨⟨other, unmarked⟩, later⟩ := settled
    have kept : empty.expandToken t = .ok t := by
      refine expandToken_eq_ok.mpr ⟨t.args, rfl, List.forall₂_same.mpr ?_⟩
      intro argument member
      rw [substitute_empty]
      exact .plain (unmarked argument member)
    rw [expand_statement other kept, ih later]
    rfl

end Constants

section Places

variable {tokens expanded : List Token} {defined : List (String × String)}

/-- What is known above a token of an expansion, and that it is taken in there. -/
theorem expand_at {i : Nat} {t : Token} (expands : expand tokens = .ok expanded)
    (found : tokens[i]? = some t) :
    ∃ first second, expand (tokens.take i) = .ok first ∧ expanded = first ++ second ∧
      (Constants.above (Constants.empty.definitions tokens) tokens i).expand
        (t :: tokens.drop (i + 1)) = .ok second ∧
      Constants.empty.definitions tokens = Constants.empty.definitions (tokens.take i) ++
        (Constants.above (Constants.empty.definitions tokens) tokens i).definitions
          (t :: tokens.drop (i + 1)) := by
  obtain ⟨inside, here⟩ := List.getElem?_eq_some_iff.mp found
  have parts : tokens = tokens.take i ++ t :: tokens.drop (i + 1) := by
    rw [← here, ← List.drop_eq_getElem_cons inside, List.take_append_drop]
  unfold expand at expands ⊢
  rw [parts, Constants.expand_append_eq_ok] at expands
  obtain ⟨first, second, upper, lower, same⟩ := expands
  have split := Constants.definitions_append (tokens.take i) (t :: tokens.drop (i + 1)) .empty first
    upper
  rw [← parts] at split
  have above : Constants.above (Constants.empty.definitions tokens) tokens i =
      Constants.empty.behind (tokens.take i) := by
    have length := (Constants.expand_lengths _ _ first upper).1
    unfold Constants.above
    rw [split, ← length, List.take_left, Constants.behind_empty]
  rw [above]
  exact ⟨first, second, upper, same, lower, split⟩

theorem expansion_of_expand (expands : expand tokens = .ok expanded) :
    Expansion tokens (Constants.empty.definitions tokens) expanded := by
  obtain ⟨definedLength, expandedLength⟩ := Constants.expand_lengths tokens .empty expanded expands
  refine ⟨definedLength, expandedLength, ?_, ?_⟩
  · intro i d found directive
    obtain ⟨first, second, upper, _, lower, split⟩ := expand_at expands found
    have length := (Constants.expand_lengths _ _ first upper).1
    rcases Constants.expand_cons_cases lower with ⟨_, entry, defines, _⟩ | ⟨other, _⟩
    · refine ⟨entry, ?_, Constants.definition_eq_ok.mp defines⟩
      rw [Constants.definitions_directive directive defines] at split
      rw [split, ← length, List.getElem?_append_right (Nat.le_refl _), Nat.sub_self]
      rfl
    · exact absurd directive other
  · intro i t found other
    obtain ⟨first, second, upper, rfl, lower, _⟩ := expand_at expands found
    have length := (Constants.expand_lengths _ _ first upper).2
    rcases Constants.expand_cons_cases lower with ⟨directive, _⟩ | ⟨_, token, others, here, _, rfl⟩
    · exact absurd directive other
    · obtain ⟨args, rfl, settled⟩ := Constants.expandToken_eq_ok.mp here
      refine ⟨args, ?_, settled⟩
      rw [← length, List.getElem?_append_right (Nat.le_refl _), Nat.sub_self]
      rfl

theorem take_succ_of_getElem? {xs : List Token} {i : Nat} {x : Token} (found : xs[i]? = some x) :
    xs.take (i + 1) = xs.take i ++ [x] := by
  rw [List.take_add_one, found, Option.toList_some]

theorem lengths_directive (before : List Token) {d : Token} (directive : d.kind = .directive) :
    (directives (before ++ [d])).length = (directives before).length + 1 ∧
      (statements (before ++ [d])).length = (statements before).length := by
  have isDirective := Token.isDirective_iff.mpr directive
  unfold directives statements
  simp [isDirective]

theorem lengths_statement (before : List Token) {t : Token} (other : t.kind ≠ .directive) :
    (directives (before ++ [t])).length = (directives before).length ∧
      (statements (before ++ [t])).length = (statements before).length + 1 := by
  have isDirective : t.isDirective = false :=
    Bool.eq_false_iff.mpr fun yes => other (Token.isDirective_iff.mp yes)
  unfold directives statements
  simp [isDirective]

/-- What an expansion tells of its first places is what is found there. -/
theorem Expansion.expand_take (expansion : Expansion tokens defined expanded) (i : Nat)
    (inside : i ≤ tokens.length) :
    expand (tokens.take i) = .ok (expanded.take (statements (tokens.take i)).length) ∧
      Constants.empty.definitions (tokens.take i) =
        defined.take (directives (tokens.take i)).length := by
  induction i with
  | zero => exact ⟨rfl, rfl⟩
  | succ i ih =>
    obtain ⟨expands, defines⟩ := ih (by omega)
    have found : tokens[i]? = some tokens[i] := List.getElem?_eq_getElem inside
    generalize tokens[i] = t at found
    have known : Constants.empty.behind (tokens.take i) = .above defined tokens i := by
      rw [Constants.behind_empty, defines]
      rfl
    have more := Constants.definitions_append (tokens.take i) [t] .empty _ expands
    rw [take_succ_of_getElem? found, more, defines, known]
    unfold expand
    rw [Constants.expand_append_eq_ok, known]
    by_cases directive : t.kind = .directive
    · obtain ⟨entry, placed, introduces⟩ := expansion.directive i t found directive
      have here := Constants.definition_eq_ok.mpr introduces
      obtain ⟨oneMore, same⟩ := lengths_directive (tokens.take i) directive
      rw [oneMore, same, List.take_add_one, placed, Constants.definitions_directive directive here,
        Constants.expand_directive directive here]
      exact ⟨⟨_, [], expands, rfl, (List.append_nil _).symm⟩, rfl⟩
    · obtain ⟨args, placed, settled⟩ := expansion.statement i t found directive
      have here := Constants.expandToken_eq_ok.mpr ⟨args, rfl, settled⟩
      obtain ⟨same, oneMore⟩ := lengths_statement (tokens.take i) directive
      rw [oneMore, same, List.take_add_one, placed, Constants.definitions_statement directive here,
        Constants.expand_statement directive here]
      exact ⟨⟨_, [{ t with args }], expands, rfl, rfl⟩, List.append_nil _⟩

theorem expand_eq_ok_iff : expand tokens = .ok expanded ↔
    ∃ defined, Expansion tokens defined expanded := by
  constructor
  · intro expands
    exact ⟨_, expansion_of_expand expands⟩
  · rintro ⟨defined, expansion⟩
    have whole := (expansion.expand_take tokens.length (Nat.le_refl _)).1
    rw [List.take_length, ← expansion.expanded_length, List.take_length] at whole
    exact whole

end Places

/-- Expansion goes down the source and leaves nothing to do. Tokens below others change neither what
these expand to nor the fault that they have. A sequence expands to what its places tell, where the last
definition of a name above a token counts. And no argument of what it expands to begins with the
marker, so that this is expanded to itself. -/
theorem expansion_goes_down (tokens more : List Token) :
    (∀ expanded, expand (tokens ++ more) = .ok expanded →
      ∃ first, expand tokens = .ok first ∧ first <+: expanded) ∧
    (∀ f, expand tokens = .error f → expand (tokens ++ more) = .error f) ∧
    (∀ expanded, expand tokens = .ok expanded ↔ ∃ defined, Expansion tokens defined expanded) ∧
    (∀ defined i name, (Constants.above defined tokens i).get? name =
      Constants.lastValue (defined.take (directives (tokens.take i)).length) name) ∧
    ∀ expanded, expand tokens = .ok expanded →
      (∀ t ∈ expanded, ∀ argument ∈ t.args, ¬ marker <+: argument.toList) ∧
        expand expanded = .ok expanded := by
  refine ⟨?_, ?_, fun _ => expand_eq_ok_iff, ?_, ?_⟩
  · intro expanded expands
    obtain ⟨first, second, upper, _, rfl⟩ := Constants.expand_append_eq_ok.mp expands
    exact ⟨first, upper, List.prefix_append first second⟩
  · intro f failed
    unfold expand at failed ⊢
    rw [Constants.expand_append, failed]
    rfl
  · intro defined i name
    exact Constants.get?_ofDefinitions _ name
  · intro expanded expands
    have settled := Constants.expand_settled tokens .empty expanded expands
    exact ⟨fun t member => (settled t member).2, Constants.expand_of_settled expanded settled⟩

end Source

end Accumulator

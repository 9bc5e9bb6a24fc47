import Accumulator.Proofs.Program.Lowering

set_option autoImplicit false

/-!
Which token sequences have a program, told from their division into lines and functions alone: the
functions have names and parameters that are identifiers, no name occurs twice, and no label of a
scope either.
-/

namespace Accumulator

open Source

/-- Lines whose labels have names of their own. -/
structure LabelsApart (lines : List Token) : Prop where
  named : ∀ t ∈ lines, t.kind = .keyword .label → ∀ name ∈ t.args, Text.isIdentifier name = true
  distinct : (lines.filterMap Token.placedLabel?).Nodup

theorem LabelsApart.of_instructions {lines : List Token}
    (instructions : ∀ t ∈ lines, t.kind = .instruction) : LabelsApart lines := by
  have unlabelled : lines.filterMap Token.placedLabel? = [] := by
    rw [List.filterMap_eq_nil_iff]
    exact fun t member => Token.placedLabel?_of_instruction (instructions t member)
  refine ⟨?_, ?_⟩
  · intro t member label
    rw [instructions t member] at label
    cases label
  · rw [unlabelled]
    exact .nil

/-- A function whose header names it and its parameters, and whose end says nothing. -/
structure FunctionText.Proper (f : FunctionText) : Prop where
  header : ∃ name params, f.header.args = name :: params ∧
    ∀ text ∈ name :: params, Text.isIdentifier text = true
  lines : LabelsApart f.lines
  terminator : f.terminator.args = []

/-- A division of tokens that leads to a program. -/
structure WellNested (tokens main : List Token) (functions : List FunctionText) : Prop where
  divides : Divides tokens main functions
  main : LabelsApart main
  proper : ∀ f ∈ functions, f.Proper
  names : (mainName :: functions.map FunctionText.name).Nodup

/-- The program of the lines of the main scope and the functions. -/
def Program.ofParts (main : List Token) (functions : List FunctionText) : Program :=
  ⟨Scope.ofBody mainName none [] (main.map Token.kept) none, functions.map FunctionText.scope⟩

theorem FunctionText.placedLabels_allLines (f : FunctionText) :
    f.allLines.filterMap Token.placedLabel? = f.lines.filterMap Token.placedLabel? := by
  have unlabelled : (f.params.map (f.header.derive "VAR")).filterMap Token.placedLabel? = [] := by
    rw [List.filterMap_eq_nil_iff]
    intro t member
    obtain ⟨param, _, rfl⟩ := List.mem_map.mp member
    rfl
  unfold FunctionText.allLines
  rw [List.filterMap_append, unlabelled, List.nil_append]

/-- The labels of a scope are those that its lines place. -/
theorem Scope.ofBody_placed_labels {lines : List Token} (inside : ∀ t ∈ lines, t.InBody)
    (name : String) (header : Option Token) (params : List String) (terminator : Option Token) :
    ((Scope.ofBody name header params (lines.map Token.kept) terminator).labels.map Prod.fst).Perm
      (lines.filterMap Token.placedLabel?) :=
  labelNames_kept lines inside ▸ Scope.ofBody_label_names name header params _ terminator

/-- A token that places a label is a line of the main scope or of a function. -/
theorem Divides.label_mem {tokens main : List Token} {functions : List FunctionText}
    (divides : Divides tokens main functions) {t : Token} {name : String} (member : t ∈ tokens)
    (places : t.placedLabel? = some name) : t ∈ main ∨ ∃ f ∈ functions, t ∈ f.lines := by
  have other : ∀ word, t.kind = .keyword word → word = .label := by
    intro word keyword
    rcases Token.placedLabel?_eq_some places with ⟨label, _⟩ | ⟨label, _⟩
    · rw [keyword] at label
      cases label
    · rw [keyword] at label
      cases label
      rfl
  induction divides with
  | nil => cases member
  | line s rest main functions _ _ ih =>
    rcases List.mem_cons.mp member with rfl | behind
    · exact .inl List.mem_cons_self
    · rcases ih behind with inMain | ⟨f, listed, line⟩
      · exact .inl (List.mem_cons_of_mem _ inMain)
      · exact .inr ⟨f, listed, line⟩
  | function f rest main functions opens _ closes _ ih =>
    rcases List.mem_append.mp member with front | back
    · rcases List.mem_cons.mp front with rfl | line
      · cases other _ opens
      · exact .inr ⟨f, List.mem_cons_self, line⟩
    · rcases List.mem_cons.mp back with rfl | behind
      · cases other _ closes
      · rcases ih behind with inMain | ⟨g, listed, line⟩
        · exact .inl inMain
        · exact .inr ⟨g, List.mem_cons_of_mem _ listed, line⟩

namespace Nesting

/-- Every token of an accepted sequence is taken in by a step of its own. -/
theorem step_of_mem (tokens : List Token) (n last : Nesting)
    (accepted : tokens.foldlM accept n = .ok last) (t : Token) (member : t ∈ tokens) :
    ∃ before after : Nesting, before.Step t after := by
  induction tokens generalizing n with
  | nil => cases member
  | cons first tokens ih =>
    rw [List.foldlM_cons, bind_eq_ok] at accepted
    obtain ⟨next, here, later⟩ := accepted
    rcases List.mem_cons.mp member with rfl | behind
    · exact ⟨n, next, accept_step here⟩
    · exact ih next later behind

theorem Step.named {n next : Nesting} {t : Token} (stepped : n.Step t next)
    (label : t.kind = .keyword .label) : ∀ name ∈ t.args, Text.isIdentifier name = true := by
  cases stepped with
  | line _ named _ => exact named label
  | opens _ _ header _ _ _ _ _ =>
    rw [label] at header
    cases header
  | closes _ terminator _ _ =>
    rw [label] at terminator
    cases terminator

theorem Step.header {n next : Nesting} {t : Token} (stepped : n.Step t next)
    (opens : t.kind = .keyword .function) :
    ∃ name params, t.args = name :: params ∧
      (∀ text ∈ name :: params, Text.isIdentifier text = true) ∧ name ≠ mainName := by
  cases stepped with
  | line inside _ _ =>
    rcases inside with instruction | label
    · rw [opens] at instruction
      cases instruction
    · unfold Token.placedLabel? at label
      rw [opens] at label
      cases label
  | opens name params _ _ args identifiers apart _ => exact ⟨name, params, args, identifiers, apart⟩
  | closes _ terminator _ _ =>
    rw [opens] at terminator
    cases terminator

theorem Step.bare {n next : Nesting} {t : Token} (stepped : n.Step t next)
    (closes : t.kind = .keyword .finish) : t.args = [] := by
  cases stepped with
  | line inside _ _ =>
    rcases inside with instruction | label
    · rw [closes] at instruction
      cases instruction
    · unfold Token.placedLabel? at label
      rw [closes] at label
      cases label
  | opens _ _ header _ _ _ _ _ =>
    rw [closes] at header
    cases header
  | closes _ _ _ bare => exact bare

/-- Takes several lines in. -/
def extend (n : Nesting) (lines : List Token) : Nesting :=
  match n.current with
  | none => { n with main := n.main ++ lines }
  | some f => { n with current := some { f with body := f.body ++ lines } }

theorem extend_nil (n : Nesting) : n.extend [] = n := by
  obtain ⟨main, functions, current⟩ := n
  cases current <;> simp [extend]

theorem push_extend (n : Nesting) (t : Token) (lines : List Token) :
    (n.push t).extend lines = n.extend (t :: lines) := by
  obtain ⟨main, functions, current⟩ := n
  cases current <;> simp [push, extend]

theorem body_push (n : Nesting) (t : Token) : (n.push t).body = n.body ++ [t] := by
  obtain ⟨main, functions, current⟩ := n
  cases current <;> rfl

/-- A line is taken in if its label is an identifier that the scope has no label of. -/
theorem accept_line {n : Nesting} {t : Token} {rest : List Token} (inside : t.InBody)
    (named : t.kind = .keyword .label → ∀ name ∈ t.args, Text.isIdentifier name = true)
    (distinct : (labelNames n.body ++ (t :: rest).filterMap Token.placedLabel?).Nodup) :
    n.accept t = .ok (n.push t.kept) := by
  apply accept_of_step
  refine .line inside named ?_
  intro name places other member labelled same
  have used : name ∈ labelNames n.body :=
    List.mem_map.mpr ⟨other, List.mem_filter.mpr ⟨member, labelled⟩, same⟩
  rw [List.filterMap_cons_some places] at distinct
  exact (List.nodup_append.mp distinct).2.2 name used name List.mem_cons_self rfl

theorem labelNames_push {n : Nesting} {t : Token} (inside : t.InBody) (rest : List Token) :
    labelNames (n.push t.kept).body ++ rest.filterMap Token.placedLabel? =
      labelNames n.body ++ (t :: rest).filterMap Token.placedLabel? := by
  rw [body_push, labelNames_append, inside.labelNames_kept, List.append_assoc]
  cases places : t.placedLabel? with
  | none => rw [List.filterMap_cons_none places, Option.toList_none, List.nil_append]
  | some name => rw [List.filterMap_cons_some places, Option.toList_some, List.singleton_append]

theorem accept_lines (lines : List Token) (n : Nesting) (inside : ∀ t ∈ lines, t.InBody)
    (named : ∀ t ∈ lines, t.kind = .keyword .label →
      ∀ name ∈ t.args, Text.isIdentifier name = true)
    (distinct : (labelNames n.body ++ lines.filterMap Token.placedLabel?).Nodup) :
    lines.foldlM accept n = .ok (n.extend (lines.map Token.kept)) := by
  induction lines generalizing n with
  | nil =>
    rw [List.map_nil, extend_nil]
    rfl
  | cons t lines ih =>
    have first := inside t List.mem_cons_self
    have here := accept_line first (named t List.mem_cons_self) distinct
    rw [← labelNames_push first] at distinct
    have later := ih (n.push t.kept)
      (fun other member => inside other (List.mem_cons_of_mem _ member))
      (fun other member => named other (List.mem_cons_of_mem _ member)) distinct
    rw [List.foldlM_cons, here]
    change lines.foldlM accept (n.push t.kept) = _
    rw [later, push_extend]
    rfl

/-- A function is read from its header to its end. -/
theorem accept_function (f : FunctionText) (n : Nesting) (idle : n.current = none)
    (opens : f.header.kind = .keyword .function) (inside : ∀ t ∈ f.lines, t.InBody)
    (closes : f.terminator.kind = .keyword .finish) (proper : f.Proper)
    (apart : f.name ≠ mainName) (fresh : ∀ s ∈ n.functions, s.name ≠ f.name) (rest : List Token) :
    (f.header :: f.lines ++ f.terminator :: rest).foldlM accept n =
      rest.foldlM accept { n with functions := n.functions ++ [f.scope] } := by
  obtain ⟨name, params, args, identifiers⟩ := proper.header
  have named : f.name = name := by
    unfold FunctionText.name
    rw [args, List.headD_cons]
  have tail : f.params = params := by
    unfold FunctionText.params
    rw [args, List.tail_cons]
  rw [named] at apart fresh
  have header := accept_of_step (.opens name params opens idle args identifiers apart fresh)
  generalize opened : (⟨f.header, name, params, params.map (f.header.derive "VAR")⟩ : OpenFunction) =
    g at header
  have unlabelled : labelNames g.body = [] := by
    rw [← opened]
    exact labelNames_params f.header params
  have lines := accept_lines f.lines { n with current := some g } inside proper.lines.named (by
    change (labelNames g.body ++ _).Nodup
    rw [unlabelled, List.nil_append]
    exact proper.lines.distinct)
  have closed := accept_of_step (n := { n with current := some g }.extend (f.lines.map Token.kept))
    (.closes { g with body := g.body ++ f.lines.map Token.kept } closes rfl proper.terminator)
  have scope : Scope.ofBody g.name (some g.header) g.params (g.body ++ f.lines.map Token.kept)
      (some f.terminator) = f.scope := by
    unfold FunctionText.scope FunctionText.allLines
    rw [List.map_append, f.kept_params, named, tail, ← opened]
  rw [List.cons_append, List.foldlM_cons, header]
  change (f.lines ++ f.terminator :: rest).foldlM accept { n with current := some g } = _
  rw [List.foldlM_append, lines]
  change (f.terminator :: rest).foldlM accept _ = _
  rw [List.foldlM_cons, closed]
  change rest.foldlM accept { n with
    functions := n.functions ++ [Scope.ofBody g.name (some g.header) g.params
      (g.body ++ f.lines.map Token.kept) (some f.terminator)]
    current := none } = _
  rw [scope, ← idle]

end Nesting

/-- Tokens that are divided into lines and functions with names of their own are accepted. -/
theorem Divides.accepted {tokens main : List Token} {functions : List FunctionText}
    (divides : Divides tokens main functions) (n : Nesting) (idle : n.current = none)
    (named : ∀ t ∈ main, t.kind = .keyword .label → ∀ name ∈ t.args, Text.isIdentifier name = true)
    (labels : (labelNames n.body ++ main.filterMap Token.placedLabel?).Nodup)
    (proper : ∀ f ∈ functions, f.Proper)
    (names : (mainName :: n.functions.map Scope.name ++ functions.map FunctionText.name).Nodup) :
    tokens.foldlM Nesting.accept n = .ok
      { n with
        main := n.main ++ main.map Token.kept
        functions := n.functions ++ functions.map FunctionText.scope } := by
  induction divides generalizing n with
  | nil =>
    simp only [List.map_nil, List.append_nil]
    rfl
  | line t rest main functions inside _ ih =>
    have here := Nesting.accept_line inside (named t List.mem_cons_self) labels
    have pushed : n.push t.kept = { n with main := n.main ++ [t.kept] } := by
      unfold Nesting.push
      rw [idle]
    rw [← Nesting.labelNames_push inside] at labels
    rw [pushed] at here labels
    have later := ih { n with main := n.main ++ [t.kept] } idle
      (fun other member => named other (List.mem_cons_of_mem _ member)) labels proper names
    rw [List.foldlM_cons, here]
    change rest.foldlM Nesting.accept { n with main := n.main ++ [t.kept] } = _
    rw [later]
    simp
  | function f rest main functions opens inside closes _ ih =>
    have first := proper f List.mem_cons_self
    have apart : f.name ≠ mainName := by
      intro same
      rw [List.cons_append, List.nodup_cons] at names
      exact names.1 (by simp [same])
    have fresh : ∀ s ∈ n.functions, s.name ≠ f.name := by
      intro s member same
      rw [List.cons_append, List.nodup_cons, List.nodup_append] at names
      exact names.2.2.2 s.name (List.mem_map_of_mem member) f.name (by simp) same
    rw [Nesting.accept_function f n idle opens inside closes first apart fresh]
    have later := ih { n with functions := n.functions ++ [f.scope] } idle named labels
      (fun g member => proper g (List.mem_cons_of_mem _ member)) (by
        rw [List.map_append, List.cons_append, List.append_assoc]
        exact names)
    rw [later]
    simp

theorem Program.wellNested {tokens : List Token} {program : Program}
    (parsed : Program.ofTokens tokens = .ok program) :
    ∃ main functions, WellNested tokens main functions ∧
      program = Program.ofParts main functions := by
  obtain ⟨main, functions, divides, mainScope, scopes⟩ := Program.divides parsed
  obtain ⟨distinctNames, distinctLabels⟩ := Program.distinct parsed
  obtain ⟨n, accepted, _, _⟩ := Program.ofTokens_eq_ok.mp parsed
  obtain ⟨mainLines, functionLines⟩ := divides.inBody
  have step : ∀ t ∈ tokens, ∃ before after : Nesting, before.Step t after :=
    Nesting.step_of_mem tokens .start n accepted
  have named : ∀ t ∈ tokens, t.kind = .keyword .label →
      ∀ name ∈ t.args, Text.isIdentifier name = true := by
    intro t member label
    obtain ⟨_, _, stepped⟩ := step t member
    exact stepped.named label
  have headers : ∀ f ∈ functions, ∃ name params, f.header.args = name :: params ∧
      (∀ text ∈ name :: params, Text.isIdentifier text = true) ∧ name ≠ mainName := by
    intro f member
    have part := divides.partOf f member
    obtain ⟨_, _, stepped⟩ := step f.header part.header
    exact stepped.header part.opens
  refine ⟨main, functions, ⟨divides, ?_, ?_, ?_⟩, ?_⟩
  · refine ⟨fun t member => named t (mainLines t member).1, ?_⟩
    have names := Scope.ofBody_placed_labels (fun t member => (mainLines t member).2) mainName none []
      none
    rw [← names.nodup_iff, ← mainScope]
    exact distinctLabels _ List.mem_cons_self
  · intro f member
    obtain ⟨name, params, args, identifiers, _⟩ := headers f member
    refine ⟨⟨name, params, args, identifiers⟩, ⟨?_, ?_⟩, ?_⟩
    · exact fun t line => named t (functionLines f member t line).1
    · have body := f.inBody_allLines fun t line => (functionLines f member t line).2
      have names := Scope.ofBody_placed_labels body f.name (some f.header) f.params (some f.terminator)
      rw [← f.placedLabels_allLines, ← names.nodup_iff]
      apply distinctLabels f.scope
      unfold Program.scopes
      rw [scopes]
      exact List.mem_cons_of_mem _ (List.mem_map_of_mem member)
    · have part := divides.partOf f member
      obtain ⟨_, _, stepped⟩ := step f.terminator part.terminator
      exact stepped.bare part.closes
  · rw [List.nodup_cons]
    constructor
    · intro member
      obtain ⟨f, listed, same⟩ := List.mem_map.mp member
      obtain ⟨name, params, args, _, apart⟩ := headers f listed
      unfold FunctionText.name at same
      rw [args] at same
      exact apart same
    · rw [scopes, List.map_map] at distinctNames
      exact distinctNames
  · obtain ⟨programMain, programFunctions⟩ := program
    unfold Program.ofParts
    rw [← mainScope, ← scopes]

theorem WellNested.program {tokens main : List Token} {functions : List FunctionText}
    (nested : WellNested tokens main functions) :
    Program.ofTokens tokens = .ok (Program.ofParts main functions) := by
  rw [Program.ofTokens_eq_ok]
  have accepted := nested.divides.accepted .start rfl nested.main.named nested.main.distinct
    nested.proper nested.names
  exact ⟨_, accepted, rfl, rfl⟩

/-- The labels of a program that comes from a text have names. -/
theorem WellNested.label_identifier {text : List Char} {tokens main : List Token}
    {functions : List FunctionText} (nested : WellNested tokens main functions)
    (expanded : (Token.scan text >>= Source.expand) = .ok tokens) {s : Scope}
    (member : s ∈ (Program.ofParts main functions).scopes) {name : String} {offset : Nat}
    (found : s.label? name = some offset) : Text.isIdentifier name = true := by
  obtain ⟨mainLines, functionLines⟩ := nested.divides.inBody
  -- The label is placed by a token of the text, since the declarations of parameters place none.
  have placed : ∃ t ∈ tokens, t.placedLabel? = some name ∧
      (t.kind = .keyword .label → ∀ name ∈ t.args, Text.isIdentifier name = true) := by
    rcases List.mem_cons.mp member with rfl | function
    · obtain ⟨t, line, places⟩ :=
        Scope.placed_of_label (fun t line => (mainLines t line).2) name offset found
      exact ⟨t, (mainLines t line).1, places, nested.main.named t line⟩
    · obtain ⟨f, listed, rfl⟩ := List.mem_map.mp function
      have inside := f.inBody_allLines fun t line => (functionLines f listed t line).2
      obtain ⟨t, line, places⟩ := Scope.placed_of_label inside name offset found
      rcases List.mem_append.mp line with parameter | line
      · obtain ⟨param, _, rfl⟩ := List.mem_map.mp parameter
        cases places
      · exact ⟨t, (functionLines f listed t line).1, places,
          (nested.proper f listed).lines.named t line⟩
  obtain ⟨t, token, places, named⟩ := placed
  rcases Token.placedLabel?_eq_some places with ⟨label, rfl⟩ | ⟨keyword, args⟩
  · obtain ⟨scanned, read, expands⟩ := bind_eq_ok.mp expanded
    obtain ⟨line, raw, _, reads, same⟩ := Token.readFrom_of_expanded read expands t token
    rw [same] at label ⊢
    exact Token.identifier_of_line (t := raw) reads label
  · exact named keyword name (args ▸ List.mem_singleton_self name)

end Accumulator
